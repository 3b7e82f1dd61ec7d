import Mathlib.Logic.Function.Basic
import ObliviousRouting.Mesh.Line
import ObliviousRouting.Proofs.Network.Course

/-!
# Timetables

A timetable gives for every end of a mesh the course that its process still has before it. As long as
everything that is sent is received in the end, the courses determine how many messages wait on each
link: those that one end still awaits and the other end does not send any more. So a timetable is a
state of the whole network, and its steps can be told without any queues.

A step of one end never takes away what another end needs. Hence the order of steps does not matter
(`Completes.of_advances`): if one order brings all courses to their ends, no other order can get stuck.
It is enough then to go through the phases of a protocol one by one, as if all ends waited for each
other between them (`completes_append`).
-/

namespace ObliviousRouting

namespace Action

/-- What an action hands to the link to an end. -/
def outgoing (target : Nat) : Action → List (String × Bytes)
  | send t phase message => if t = target then [(phase, message)] else []
  | receive .. => []
  | receiveBoth .. => []

def incoming (source : Nat) : Action → List Bytes
  | send .. => []
  | receive s message => if s = source then [message] else []
  | receiveBoth s₁ message₁ s₂ message₂ =>
    (if s₁ = source then [message₁] else []) ++ if s₂ = source then [message₂] else []

/-- The ends whose links an action uses. -/
def peers : Action → List Nat
  | send target _ _ => [target]
  | receive source _ => [source]
  | receiveBoth first _ second _ => [first, second]

end Action

namespace Course

def outbox (c : Course) (target : Nat) : List (String × Bytes) := c.flatMap (Action.outgoing target)

def inbox (c : Course) (source : Nat) : List Bytes := c.flatMap (Action.incoming source)

variable (c d : Course) (p : Nat)

@[simp] theorem outbox_nil : outbox [] p = [] := rfl

@[simp] theorem inbox_nil : inbox [] p = [] := rfl

@[simp] theorem outbox_cons (x : Action) : outbox (x :: c) p = x.outgoing p ++ outbox c p := rfl

@[simp] theorem inbox_cons (x : Action) : inbox (x :: c) p = x.incoming p ++ inbox c p := rfl

@[simp] theorem outbox_append : outbox (c ++ d) p = outbox c p ++ outbox d p :=
  List.flatMap_append

@[simp] theorem inbox_append : inbox (c ++ d) p = inbox c p ++ inbox d p :=
  List.flatMap_append

/-- A course goes on once its end gets what it needs. Of two messages that it waits for, each may come
first. -/
inductive Next : Course → Need → Course → Prop
  | send {target : Nat} {phase : String} {message : Bytes} {c : Course} :
      Next (.send target phase message :: c) (.room target) c
  | receive {source : Nat} {message : Bytes} {c : Course} :
      Next (.receive source message :: c) (.message source) c
  | first {first second : Nat} {message₁ message₂ : Bytes} {c : Course} (h : first ≠ second) :
      Next (.receiveBoth first message₁ second message₂ :: c) (.message first)
        (.receive second message₂ :: c)
  | second {first second : Nat} {message₁ message₂ : Bytes} {c : Course} (h : first ≠ second) :
      Next (.receiveBoth first message₁ second message₂ :: c) (.message second)
        (.receive first message₁ :: c)

theorem Next.append {c c' : Course} {need : Need} (h : Next c need c') (d : Course) :
    Next (c ++ d) need (c' ++ d) := by
  cases h with
  | send => exact .send
  | receive => exact .receive
  | first h => exact .first h
  | second h => exact .second h

theorem Next.length_outbox_le {c c' : Course} {need : Need} (h : Next c need c') (p : Nat) :
    (outbox c' p).length ≤ (outbox c p).length := by
  cases h <;> simp [Action.outgoing]

theorem Next.length_inbox_le {c c' : Course} {need : Need} (h : Next c need c') (p : Nat) :
    (inbox c' p).length ≤ (inbox c p).length := by
  cases h <;> simp [Action.incoming]

theorem Next.of_message {c c' : Course} {source : Nat} (h : Next c (.message source) c') :
    (∃ message, inbox c source = message :: inbox c' source) ∧
      (∀ q, q ≠ source → inbox c q = inbox c' q) ∧ ∀ q, outbox c q = outbox c' q := by
  cases h with
  | @receive _ message =>
    refine ⟨⟨message, by simp [Action.incoming]⟩, ?_, fun _ => rfl⟩
    intro q hq
    simp [Action.incoming, Ne.symm hq]
  | @first _ _ message₁ _ _ hne =>
    refine ⟨⟨message₁, by simp [Action.incoming, Ne.symm hne]⟩, ?_, fun _ => rfl⟩
    intro q hq
    simp [Action.incoming, Ne.symm hq]
  | @second _ _ _ message₂ _ hne =>
    refine ⟨⟨message₂, by simp [Action.incoming, hne]⟩, ?_, fun _ => rfl⟩
    intro q hq
    simp [Action.incoming, Ne.symm hq]

/-- Two ways to go on are the same, or they take the two halves of a pair, and the other half of each
is left. -/
theorem Next.eq_or_join {c c₁ c₂ : Course} {need₁ need₂ : Need} (h₁ : Next c need₁ c₁)
    (h₂ : Next c need₂ c₂) :
    c₁ = c₂ ∨ ∃ s₁ s₂ m₁ m₂ d, (∀ q, outbox c q = outbox d q) ∧
      (need₁ = .message s₁ ∧ c₁ = .receive s₂ m₂ :: d ∧ inbox c s₁ = m₁ :: inbox d s₁) ∧
      need₂ = .message s₂ ∧ c₂ = .receive s₁ m₁ :: d ∧ inbox c s₂ = m₂ :: inbox d s₂ := by
  have inbox_both {s₁ s₂ : Nat} (m₁ m₂ : Bytes) (d : Course) (hne : s₁ ≠ s₂) :
      inbox (.receiveBoth s₁ m₁ s₂ m₂ :: d) s₁ = m₁ :: inbox d s₁ ∧
        inbox (.receiveBoth s₁ m₁ s₂ m₂ :: d) s₂ = m₂ :: inbox d s₂ := by
    simp [Action.incoming, hne, hne.symm]
  cases h₁ with
  | send => cases h₂; exact .inl rfl
  | receive => cases h₂; exact .inl rfl
  | @first s₁ s₂ m₁ m₂ d hne =>
    cases h₂ with
    | first => exact .inl rfl
    | second =>
      have ⟨hin₁, hin₂⟩ := inbox_both m₁ m₂ d hne
      exact .inr ⟨s₁, s₂, m₁, m₂, d, fun _ => rfl, ⟨rfl, rfl, hin₁⟩, rfl, rfl, hin₂⟩
  | @second s₁ s₂ m₁ m₂ d hne =>
    cases h₂ with
    | first =>
      have ⟨hin₁, hin₂⟩ := inbox_both m₁ m₂ d hne
      exact .inr ⟨s₂, s₁, m₂, m₁, d, fun _ => rfl, ⟨rfl, rfl, hin₂⟩, rfl, rfl, hin₁⟩
    | second => exact .inl rfl

end Course

abbrev Timetable := Nat → Course

namespace Timetable

open Course

def andThen (A B : Timetable) : Timetable := fun p => A p ++ B p

/-- The phases of a protocol, one after the other. -/
def join (phases : List Timetable) : Timetable := fun p => phases.flatMap (· p)

def Finished (A : Timetable) : Prop := ∀ p, A p = []

/-- Every link brings what is awaited on it. -/
def Balanced (A : Timetable) : Prop :=
  ∀ a b, (outbox (A a) b).map Prod.snd = inbox (A b) a

/-- An end gets what it needs: a link that holds less than it can, or one on which a message waits. -/
def Grants (capacity : Nat) (A : Timetable) (p : Nat) : Need → Prop
  | .room target => (inbox (A target) p).length < capacity + (outbox (A p) target).length
  | .message source => (outbox (A source) p).length < (inbox (A p) source).length

/-- Some end goes on. -/
def Advances (capacity : Nat) (A A' : Timetable) : Prop :=
  ∃ p need c, Next (A p) need c ∧ A.Grants capacity p need ∧ A' = Function.update A p c

/-- Some order of steps brings all courses to their ends. -/
inductive Completes (capacity : Nat) : Timetable → Prop
  | finished {A : Timetable} : A.Finished → Completes capacity A
  | step {A A' : Timetable} : A.Advances capacity A' → Completes capacity A' → Completes capacity A

variable {capacity : Nat} {A A' B : Timetable}

/-! ### The order of steps -/

/-- A step of one end leaves the others what they need. -/
theorem Grants.update_of_ne {p q : Nat} {need need' : Need} {c : Course}
    (hnext : Next (A p) need c) (hne : q ≠ p) (h : A.Grants capacity q need') :
    Grants capacity (Function.update A p c) q need' := by
  cases need' with
  | room target =>
    simp only [Grants, Function.update_of_ne hne] at h ⊢
    by_cases heq : target = p
    · subst heq
      have hle := hnext.length_inbox_le q
      rw [Function.update_self]
      omega
    · rwa [Function.update_of_ne heq]
  | message source =>
    simp only [Grants, Function.update_of_ne hne] at h ⊢
    by_cases heq : source = p
    · subst heq
      have hle := hnext.length_outbox_le q
      rw [Function.update_self]
      omega
    · rwa [Function.update_of_ne heq]

/-- The other half of a pair is still there after one half has been received. -/
theorem advances_update_receive {p source : Nat} {message : Bytes} {d : Course}
    (hin : inbox (A p) source = message :: inbox d source)
    (hout : ∀ q, outbox (A p) q = outbox d q)
    (h : A.Grants capacity p (.message source)) :
    Advances capacity (Function.update A p (.receive source message :: d))
      (Function.update A p d) := by
  refine ⟨p, .message source, d, ?_, ?_, ?_⟩
  · rw [Function.update_self]
    exact .receive
  · simp only [Grants, Function.update_self] at h ⊢
    rw [hin] at h
    by_cases heq : source = p
    · subst heq
      rw [hout] at h
      simpa [Action.incoming, Action.outgoing] using h
    · rw [Function.update_of_ne heq]
      simpa [Action.incoming] using h
  · rw [Function.update_idem]

/-- Two different steps can be made one after the other, in both orders, with the same result. -/
theorem Advances.diamond {A₁ A₂ : Timetable} (h₁ : A.Advances capacity A₁)
    (h₂ : A.Advances capacity A₂) :
    A₁ = A₂ ∨ ∃ A₃, A₁.Advances capacity A₃ ∧ A₂.Advances capacity A₃ := by
  obtain ⟨p, need, c, hp, hgrant, rfl⟩ := h₁
  obtain ⟨q, need', d, hq, hgrant', rfl⟩ := h₂
  by_cases hne : q = p
  · subst hne
    rcases hp.eq_or_join hq with
      rfl | ⟨s₁, s₂, m₁, m₂, e, hout, ⟨rfl, rfl, hin₁⟩, rfl, rfl, hin₂⟩
    · exact .inl rfl
    · exact .inr ⟨Function.update A q e, advances_update_receive hin₂ hout hgrant',
        advances_update_receive hin₁ hout hgrant⟩
  · right
    refine ⟨Function.update (Function.update A p c) q d, ?_, ?_⟩
    · refine ⟨q, need', d, ?_, hgrant'.update_of_ne hp hne, rfl⟩
      rwa [Function.update_of_ne hne]
    · refine ⟨p, need, c, ?_, hgrant.update_of_ne hq (Ne.symm hne), Function.update_comm (Ne.symm hne) ..⟩
      rwa [Function.update_of_ne (Ne.symm hne)]

theorem Completes.of_advances (h : Completes capacity A) (hstep : A.Advances capacity A') :
    Completes capacity A' := by
  induction h generalizing A' with
  | finished hdone =>
    obtain ⟨p, need, c, hnext, -⟩ := hstep
    rw [hdone p] at hnext
    cases hnext
  | step hfirst hrest ih =>
    rcases hfirst.diamond hstep with rfl | ⟨A₃, h₁, h₂⟩
    · exact hrest
    · exact .step h₂ (ih h₁)

/-! ### One phase after another -/

theorem balanced_andThen (hA : A.Balanced) (hB : B.Balanced) : (A.andThen B).Balanced := by
  intro a b
  simp only [andThen, outbox_append, inbox_append, List.map_append, hA a b, hB a b]

theorem Balanced.length_eq (h : A.Balanced) (a b : Nat) :
    (outbox (A a) b).length = (inbox (A b) a).length := by
  rw [← h a b, List.length_map]

theorem Advances.andThen (h : A.Advances capacity A') (hB : B.Balanced) :
    (A.andThen B).Advances capacity (A'.andThen B) := by
  obtain ⟨p, need, c, hnext, hgrant, rfl⟩ := h
  refine ⟨p, need, c ++ B p, hnext.append _, ?_, ?_⟩
  · cases need with
    | room target =>
      have hlength := hB.length_eq p target
      simp only [Grants, Timetable.andThen, outbox_append, inbox_append, List.length_append] at hgrant ⊢
      omega
    | message source =>
      have hlength := hB.length_eq source p
      simp only [Grants, Timetable.andThen, outbox_append, inbox_append, List.length_append] at hgrant ⊢
      omega
  · funext q
    by_cases heq : q = p
    · subst heq
      simp only [Timetable.andThen, Function.update_self]
    · simp only [Timetable.andThen, Function.update_of_ne heq]

theorem completes_andThen (hA : Completes capacity A) (hB : B.Balanced)
    (hrest : Completes capacity B) : Completes capacity (A.andThen B) := by
  induction hA with
  | @finished A hdone =>
    have heq : A.andThen B = B := by
      funext p
      rw [Timetable.andThen, hdone p, List.nil_append]
    rwa [heq]
  | step hstep _ ih => exact .step (hstep.andThen hB) ih

theorem join_cons (phases : List Timetable) : join (A :: phases) = A.andThen (join phases) := rfl

theorem balanced_join {phases : List Timetable} (h : ∀ A ∈ phases, A.Balanced) :
    (join phases).Balanced := by
  induction phases with
  | nil => intro a b; rfl
  | cons A phases ih =>
    rw [join_cons]
    exact balanced_andThen (h A List.mem_cons_self) (ih fun B hB => h B (List.mem_cons_of_mem A hB))

theorem completes_join {phases : List Timetable} (hbal : ∀ A ∈ phases, A.Balanced)
    (h : ∀ A ∈ phases, Completes capacity A) : Completes capacity (join phases) := by
  induction phases with
  | nil => exact .finished fun p => rfl
  | cons A phases ih =>
    have hbal' : ∀ B ∈ phases, B.Balanced := fun B hB => hbal B (List.mem_cons_of_mem A hB)
    rw [join_cons]
    exact completes_andThen (h A List.mem_cons_self) (balanced_join hbal')
      (ih hbal' fun B hB => h B (List.mem_cons_of_mem A hB))

end Timetable

end ObliviousRouting
