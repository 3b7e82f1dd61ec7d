import Mathlib.Algebra.Order.BigOperators.Group.List
import Mathlib.Algebra.Order.Group.Nat
import ObliviousRouting.Proofs.Network.Schedule

/-!
# Phases among three ends

A phase is a timetable that can be run on its own, among some of the ends. Phases are joined to longer
ones. The shortest phases of the protocols here are among three ends, or two of them, and each of them
sends a few messages only, so they are gone through step by step.
-/

namespace ObliviousRouting

def Action.Sends : Action → Prop
  | .send .. => True
  | .receive .. => False
  | .receiveBoth .. => False

namespace Course

/-- A course uses the links to some ends only. -/
def Uses (c : Course) (ps : List Nat) : Prop := ∀ x ∈ c, x.peers.Nodup ∧ x.peers ⊆ ps

theorem Uses.outbox_eq_nil {c : Course} {ps : List Nat} (h : c.Uses ps) {q : Nat} (hq : q ∉ ps) :
    outbox c q = [] := by
  rw [outbox, List.flatMap_eq_nil_iff]
  intro x hx
  have hpeers := (h x hx).2
  cases x with
  | send target phase message =>
    have hne : target ≠ q := fun heq => hq (heq ▸ hpeers List.mem_cons_self)
    exact if_neg hne
  | receive => rfl
  | receiveBoth => rfl

theorem Uses.inbox_eq_nil {c : Course} {ps : List Nat} (h : c.Uses ps) {q : Nat} (hq : q ∉ ps) :
    inbox c q = [] := by
  rw [inbox, List.flatMap_eq_nil_iff]
  intro x hx
  have hpeers := (h x hx).2
  have hne {s : Nat} (hs : s ∈ x.peers) : s ≠ q := fun heq => hq (heq ▸ hpeers hs)
  cases x with
  | send => rfl
  | receive source message => exact if_neg (hne List.mem_cons_self)
  | receiveBoth first message₁ second message₂ =>
    rw [Action.incoming, if_neg (hne List.mem_cons_self),
      if_neg (hne (List.mem_cons_of_mem _ List.mem_cons_self)), List.append_nil]

def count (c : Course) : Nat := (c.flatMap Action.peers).length

/-- First everything is sent, then everything is received. -/
def Volley (c : Course) : Prop := c.Pairwise fun x y => y.Sends → x.Sends

theorem Next.count_lt {c c' : Course} {need : Need} (h : Next c need c') : c'.count < c.count := by
  cases h <;> simp [count, Action.peers]

theorem Next.volley {c c' : Course} {need : Need} (h : Next c need c') (hc : c.Volley) : c'.Volley := by
  cases h with
  | send => exact hc.of_cons
  | receive => exact hc.of_cons
  | first =>
    rw [Volley, List.pairwise_cons] at hc ⊢
    exact hc
  | second =>
    rw [Volley, List.pairwise_cons] at hc ⊢
    exact hc

theorem length_inbox_le (c : Course) (p : Nat) : (inbox c p).length ≤ c.count := by
  induction c with
  | nil => exact Nat.le_refl _
  | cons x c ih =>
    have hx : (x.incoming p).length ≤ x.peers.length := by
      cases x with
      | send => exact Nat.zero_le _
      | receive source =>
        simp only [Action.incoming, Action.peers]
        split <;> simp
      | receiveBoth first _ second =>
        simp only [Action.incoming, Action.peers]
        split <;> split <;> simp
    rw [inbox_cons, List.length_append, count, List.flatMap_cons, List.length_append]
    exact Nat.add_le_add hx ih

theorem outbox_of_not_sends {c : Course} (h : ∀ x ∈ c, ¬ x.Sends) (p : Nat) : outbox c p = [] := by
  rw [outbox, List.flatMap_eq_nil_iff]
  intro x hx
  cases x with
  | send => exact absurd trivial (h _ hx)
  | receive => rfl
  | receiveBoth => rfl

/-- A volley that does not begin with a message to be sent has none. -/
theorem Volley.outbox_eq_nil {c : Course} (hc : c.Volley) (hhead : ∀ x ∈ c.head?, ¬ x.Sends) (p : Nat) :
    outbox c p = [] := by
  apply outbox_of_not_sends
  cases c with
  | nil => exact fun x hx => nomatch hx
  | cons x c =>
    have hx : ¬ x.Sends := hhead x rfl
    rw [List.forall_mem_cons]
    exact ⟨hx, fun y hy hsends => hx ((List.pairwise_cons.1 hc).1 y hy hsends)⟩

end Course

open Course

namespace Timetable

/-- Only some ends do something, and they do it on the links between them. -/
structure Among (S : List Nat) (A : Timetable) : Prop where
  elsewhere : ∀ p ∉ S, A p = []
  peers : ∀ p, ∀ x ∈ A p, x.peers.Nodup ∧ ∀ q ∈ x.peers, q ≠ p ∧ q ∈ S

/-- A timetable that some ends can run to its end, and that leaves nothing on their links. -/
structure Phase (capacity : Nat) (S : List Nat) (A : Timetable) : Prop where
  among : A.Among S
  balanced : A.Balanced
  completes : A.Completes capacity

variable {capacity : Nat} {S : List Nat} {A : Timetable}

theorem Phase.join {phases : List Timetable} (h : ∀ A ∈ phases, A.Phase capacity S) :
    (join phases).Phase capacity S where
  among :=
    { elsewhere := by
        intro p hp
        rw [Timetable.join, List.flatMap_eq_nil_iff]
        exact fun A hA => (h A hA).among.elsewhere p hp
      peers := by
        intro p x hx
        obtain ⟨A, hA, hx⟩ := List.mem_flatMap.1 hx
        exact (h A hA).among.peers p x hx }
  balanced := balanced_join fun A hA => (h A hA).balanced
  completes := completes_join (fun A hA => (h A hA).balanced) fun A hA => (h A hA).completes

theorem Phase.andThen {B : Timetable} (hA : A.Phase capacity S) (hB : B.Phase capacity S) :
    (A.andThen B).Phase capacity S := by
  have hjoin : Timetable.join [A, B] = A.andThen B := by
    funext p
    simp only [Timetable.join, Timetable.andThen, List.flatMap_cons, List.flatMap_nil, List.append_nil]
  rw [← hjoin]
  apply Phase.join
  simp only [List.forall_mem_cons, List.not_mem_nil, false_implies, implies_true, and_true]
  exact ⟨hA, hB⟩

theorem exists_outgoing_or_incoming {x : Action} {q : Nat} (hq : q ∈ x.peers) :
    x.outgoing q ≠ [] ∨ x.incoming q ≠ [] := by
  cases x <;> simp_all [Action.peers, Action.outgoing, Action.incoming]
  omega

/-- Ends that do nothing can be left out of a phase: since all that is sent is received, nobody has anything
to do with them. -/
theorem Phase.narrow (h : A.Phase capacity S) {S' : List Nat} (helse : ∀ p ∉ S', A p = []) :
    A.Phase capacity S' where
  among :=
    { elsewhere := helse
      peers := by
        intro p x hx
        refine (h.among.peers p x hx).imp_right fun hpeers q hq => ⟨(hpeers q hq).1, ?_⟩
        by_contra hidle
        have hout : outbox (A p) q = [] := by
          rw [← List.map_eq_nil_iff (f := Prod.snd), h.balanced p q, helse q hidle, inbox_nil]
        have hin : inbox (A p) q = [] := by
          rw [← h.balanced q p, helse q hidle, outbox_nil, List.map_nil]
        rcases exists_outgoing_or_incoming hq with hne | hne
        · exact hne (List.flatMap_eq_nil_iff.1 hout x hx)
        · exact hne (List.flatMap_eq_nil_iff.1 hin x hx) }
  balanced := h.balanced
  completes := h.completes

theorem Among.mem_of_mem (h : A.Among S) {p : Nat} {x : Action} (hx : x ∈ A p) : p ∈ S := by
  by_contra hp
  rw [h.elsewhere p hp] at hx
  cases hx

theorem Among.fitsAt (h : A.Among S) {parties : Nat} (hS : ∀ p ∈ S, p < parties) (p : Nat) :
    ∀ x ∈ A p, x.FitsAt { parties } p := by
  intro x hx
  obtain ⟨hnodup, hpeers⟩ := h.peers p x hx
  refine ⟨hnodup, ?_⟩
  intro q hq
  exact ⟨(hpeers q hq).1.symm, hS p (h.mem_of_mem hx), hS q (hpeers q hq).2⟩

theorem Among.uses (h : A.Among S) (p : Nat) : (A p).Uses (S.filter (· ≠ p)) := by
  intro x hx
  obtain ⟨hnodup, hpeers⟩ := h.peers p x hx
  refine ⟨hnodup, fun q hq => List.mem_filter.2 ⟨(hpeers q hq).2, ?_⟩⟩
  exact decide_eq_true (hpeers q hq).1

theorem Among.balanced (h : A.Among S)
    (heq : ∀ p ∈ S, ∀ q ∈ S, p ≠ q → (outbox (A p) q).map Prod.snd = inbox (A q) p) : A.Balanced := by
  intro p q
  by_cases hpq : p ∈ S ∧ q ∈ S ∧ p ≠ q
  · exact heq p hpq.1 q hpq.2.1 hpq.2.2
  · have hout : outbox (A p) q = [] := by
      by_cases hp : p ∈ S
      · apply (h.uses p).outbox_eq_nil
        rw [List.mem_filter, decide_eq_true_eq]
        exact fun hq => hpq ⟨hp, hq.1, hq.2.symm⟩
      · rw [h.elsewhere p hp, outbox_nil]
    have hin : inbox (A q) p = [] := by
      by_cases hq : q ∈ S
      · apply (h.uses q).inbox_eq_nil
        rw [List.mem_filter, decide_eq_true_eq]
        exact fun hp => hpq ⟨hp.1, hq, hp.2⟩
      · rw [h.elsewhere q hq, inbox_nil]
    rw [hout, hin, List.map_nil]

/-- Processes at the ends of a mesh that follow the courses of a phase. -/
theorem Phase.underway {α : Type} {results : List α} {seats : List (Seat α)} {parties : Nat}
    (h : A.Phase 1024 (seats.map Seat.place))
    (hf : List.Forall₂ (fun s a => s.process.Follows (A s.place) a) seats results)
    (hdist : (seats.map Seat.place).Nodup) (hlt : ∀ p ∈ seats.map Seat.place, p < parties) :
    Underway (fun a b => outbox (A a) b) results seats { parties } A :=
  underway_of_follows hf hdist h.among.elsewhere (h.among.fitsAt hlt) h.balanced h.completes

/-! ### Volleys -/

theorem Among.of_next (h : A.Among S) {p : Nat} {need : Need} {c : Course} (hnext : Next (A p) need c) :
    Among S (Function.update A p c) := by
  constructor
  · intro q hq
    by_cases heq : q = p
    · subst heq
      rw [h.elsewhere q hq] at hnext
      cases hnext
    · rw [Function.update_of_ne heq]
      exact h.elsewhere q hq
  · refine (Function.forall_update_iff A fun q course =>
      ∀ x ∈ course, x.peers.Nodup ∧ ∀ r ∈ x.peers, r ≠ q ∧ r ∈ S).2 ⟨?_, fun q _ => h.peers q⟩
    intro x hx
    have hpeers := h.peers p
    generalize A p = course at hnext hpeers
    cases hnext with
    | send => exact hpeers x (List.mem_cons_of_mem _ hx)
    | receive => exact hpeers x (List.mem_cons_of_mem _ hx)
    | first =>
      rcases List.mem_cons.1 hx with rfl | hx
      · have hpair := (hpeers _ List.mem_cons_self).2
        exact ⟨List.pairwise_singleton .., fun r hr => hpair r (List.mem_cons_of_mem _ hr)⟩
      · exact hpeers x (List.mem_cons_of_mem _ hx)
    | second =>
      rcases List.mem_cons.1 hx with rfl | hx
      · have hpair := (hpeers _ List.mem_cons_self).2
        exact ⟨List.pairwise_singleton .., fun r hr =>
          hpair r (List.mem_singleton.1 hr ▸ List.mem_cons_self)⟩
      · exact hpeers x (List.mem_cons_of_mem _ hx)

/-- Ends that send first and receive then never wait for long: there is room for all messages, and once
all are sent, none is missing. -/
theorem Among.exists_grants_of_volley (h : A.Among S) (hvolley : ∀ p, (A p).Volley)
    (hcap : ∀ p, (A p).count ≤ capacity) :
    (∃ p ∈ S, ∃ need c, Next (A p) need c ∧ A.Grants capacity p need) ∨ A.Finished := by
  by_cases hsends : ∃ p x c, A p = x :: c ∧ x.Sends
  · obtain ⟨p, x, c, hp, hx⟩ := hsends
    have hmem : p ∈ S := h.mem_of_mem (hp ▸ List.mem_cons_self)
    cases x with
    | send target phase message =>
      refine .inl ⟨p, hmem, .room target, c, by rw [hp]; exact .send, ?_⟩
      have hroom := Nat.le_trans (length_inbox_le (A target) p) (hcap target)
      simp only [Grants, hp, outbox_cons, Action.outgoing, if_true, List.length_append,
        List.length_singleton]
      omega
    | receive => cases hx
    | receiveBoth => cases hx
  · -- nothing is sent any more, so all that is awaited has come
    have hsent (p q : Nat) : outbox (A p) q = [] := by
      refine (hvolley p).outbox_eq_nil (fun x hx hsends' => ?_) q
      obtain ⟨c, hp⟩ := List.head?_eq_some_iff.1 hx
      exact hsends ⟨p, x, c, hp, hsends'⟩
    by_cases hdone : ∃ p x c, A p = x :: c
    · obtain ⟨p, x, c, hp⟩ := hdone
      have hx : x ∈ A p := hp ▸ List.mem_cons_self
      cases x with
      | send => exact absurd ⟨p, _, c, hp, trivial⟩ hsends
      | receive source message =>
        refine .inl ⟨p, h.mem_of_mem hx, .message source, c, by rw [hp]; exact .receive, ?_⟩
        simp [Grants, hsent, hp, Action.incoming]
      | receiveBoth first message₁ second message₂ =>
        have hne : first ≠ second := by simpa [Action.peers] using (h.peers p _ hx).1
        refine .inl ⟨p, h.mem_of_mem hx, .message first, .receive second message₂ :: c,
          by rw [hp]; exact .first hne, ?_⟩
        simp [Grants, hsent, hp, Action.incoming]
    · refine .inr fun p => ?_
      cases hp : A p with
      | nil => rfl
      | cons x c => exact absurd ⟨p, x, c, hp⟩ hdone

/-- Volleys can be brought to their ends: each step leaves volleys, with fewer messages. -/
theorem Among.completes_of_volley (h : A.Among S) (hvolley : ∀ p, (A p).Volley)
    (hcap : ∀ p, (A p).count ≤ capacity) : A.Completes capacity := by
  generalize hn : (S.map fun p => (A p).count).sum = n
  induction n using Nat.strongRecOn generalizing A with
  | ind n ih =>
    rcases h.exists_grants_of_volley hvolley hcap with ⟨p, hp, need, c, hnext, hgrant⟩ | hfinished
    · have hcount : ∀ q, (Function.update A p c q).count ≤ (A q).count :=
        (Function.forall_update_iff A fun q course => course.count ≤ (A q).count).2
          ⟨Nat.le_of_lt hnext.count_lt, fun _ _ => Nat.le_refl _⟩
      refine .step ⟨p, need, c, hnext, hgrant, rfl⟩ (ih _ ?_ (h.of_next hnext) ?_ ?_ rfl)
      · rw [← hn]
        apply List.sum_lt_sum _ _ fun q _ => hcount q
        refine ⟨p, hp, ?_⟩
        rw [Function.update_self]
        exact hnext.count_lt
      · exact (Function.forall_update_iff A fun _ course => course.Volley).2
          ⟨hnext.volley (hvolley p), fun q _ => hvolley q⟩
      · exact fun q => Nat.le_trans (hcount q) (hcap q)
    · exact .finished hfinished

/-! ### Three ends -/

/-- The timetable of three ends. -/
def trio (a b c : Nat) (ca cb cc : Course) : Timetable := fun p =>
  if p = a then ca else if p = b then cb else if p = c then cc else []

variable {a b c : Nat} {ca cb cc d : Course} {need : Need}

@[simp] theorem trio_first : trio a b c ca cb cc a = ca := if_pos rfl

@[simp] theorem trio_second (hab : a ≠ b) : trio a b c ca cb cc b = cb := by
  rw [trio, if_neg hab.symm, if_pos rfl]

@[simp] theorem trio_third (hac : a ≠ c) (hbc : b ≠ c) : trio a b c ca cb cc c = cc := by
  rw [trio, if_neg hac.symm, if_neg hbc.symm, if_pos rfl]

theorem trio_of_not_mem {p : Nat} (h : p ∉ [a, b, c]) : trio a b c ca cb cc p = [] := by
  simp only [List.mem_cons, List.not_mem_nil, or_false, not_or] at h
  rw [trio, if_neg h.1, if_neg h.2.1, if_neg h.2.2]

theorem join_map_trio {β : Type} (l : List β) (f g h : β → Course) :
    join (l.map fun k => trio a b c (f k) (g k) (h k)) =
      trio a b c (l.flatMap f) (l.flatMap g) (l.flatMap h) := by
  funext p
  rw [join, List.flatMap_map, trio]
  split
  · next hp => simp only [trio, if_pos hp]
  · next hp =>
    split
    · next hp' => simp only [trio, if_neg hp, if_pos hp']
    · next hp' =>
      split
      · next hp'' => simp only [trio, if_neg hp, if_neg hp', if_pos hp'']
      · next hp'' =>
        rw [List.flatMap_eq_nil_iff]
        intro k _
        simp only [trio, if_neg hp, if_neg hp', if_neg hp'']

theorem andThen_trio (ca cb cc da db dc : Course) :
    (trio a b c ca cb cc).andThen (trio a b c da db dc) =
      trio a b c (ca ++ da) (cb ++ db) (cc ++ dc) := by
  funext p
  simp only [andThen, trio]
  split_ifs <;> rfl

/-- Three different ends of a set. -/
structure Apart (S : List Nat) (a b c : Nat) : Prop where
  first_mem : a ∈ S
  second_mem : b ∈ S
  third_mem : c ∈ S
  first_ne_second : a ≠ b
  first_ne_third : a ≠ c
  second_ne_third : b ≠ c

theorem Apart.swap (h : Apart S a b c) : Apart S b a c :=
  ⟨h.second_mem, h.first_mem, h.third_mem, h.first_ne_second.symm, h.second_ne_third,
    h.first_ne_third⟩

theorem Apart.rotate (h : Apart S a b c) : Apart S b c a :=
  ⟨h.second_mem, h.third_mem, h.first_mem, h.second_ne_third, h.first_ne_second.symm,
    h.first_ne_third.symm⟩

theorem among_trio (h : Apart S a b c) (ha : ca.Uses [b, c]) (hb : cb.Uses [a, c])
    (hc : cc.Uses [a, b]) : (trio a b c ca cb cc).Among S := by
  have hmem : ∀ q ∈ [a, b, c], q ∈ S := by
    simp only [List.forall_mem_cons, List.not_mem_nil, false_implies, implies_true, and_true]
    exact ⟨h.first_mem, h.second_mem, h.third_mem⟩
  constructor
  · exact fun p hp => trio_of_not_mem fun hp' => hp (hmem p hp')
  · intro p x hx
    rw [trio] at hx
    split at hx
    · next hp =>
      refine (ha x hx).imp_right fun hsub q hq => ?_
      have hq' := hsub hq
      subst hp
      refine ⟨?_, hmem q (List.mem_cons_of_mem _ hq')⟩
      rintro rfl
      simp [h.first_ne_second, h.first_ne_third] at hq'
    · split at hx
      · next hp =>
        refine (hb x hx).imp_right fun hsub q hq => ?_
        have hq' := hsub hq
        subst hp
        refine ⟨?_, hmem q (by aesop)⟩
        rintro rfl
        simp [h.first_ne_second.symm, h.second_ne_third] at hq'
      · split at hx
        · next hp =>
          refine (hc x hx).imp_right fun hsub q hq => ?_
          have hq' := hsub hq
          subst hp
          refine ⟨?_, hmem q (by aesop)⟩
          rintro rfl
          simp [h.first_ne_third.symm, h.second_ne_third.symm] at hq'
        · cases hx

/-- Only the messages between different ends of the three have to be compared. -/
theorem balanced_trio (h : Apart S a b c) (ha : ca.Uses [b, c]) (hb : cb.Uses [a, c])
    (hc : cc.Uses [a, b]) (hab : (outbox ca b).map Prod.snd = inbox cb a)
    (hac : (outbox ca c).map Prod.snd = inbox cc a) (hba : (outbox cb a).map Prod.snd = inbox ca b)
    (hbc : (outbox cb c).map Prod.snd = inbox cc b) (hca : (outbox cc a).map Prod.snd = inbox ca c)
    (hcb : (outbox cc b).map Prod.snd = inbox cb c) : (trio a b c ca cb cc).Balanced := by
  have hne := h.first_ne_second
  have hne' := h.first_ne_third
  have hne'' := h.second_ne_third
  have hself : Apart [a, b, c] a b c := ⟨by simp, by simp, by simp, hne, hne', hne''⟩
  have hcases {p : Nat} (hp : p ∈ [a, b, c]) : p = a ∨ p = b ∨ p = c := by simpa using hp
  apply (among_trio hself ha hb hc).balanced
  intro p hp q hq hpq
  rcases hcases hp with rfl | rfl | rfl <;> rcases hcases hq with rfl | rfl | rfl <;>
    simp only [trio_first, trio_second hne, trio_third hne' hne'']
  · exact absurd rfl hpq
  · exact hab
  · exact hac
  · exact hba
  · exact absurd rfl hpq
  · exact hbc
  · exact hca
  · exact hcb
  · exact absurd rfl hpq

/-- Three courses that send first and receive then make a phase if what each of them sends is what the
others wait for. -/
theorem phase_trio (h : Apart S a b c) (ha : ca.Uses [b, c]) (hb : cb.Uses [a, c])
    (hc : cc.Uses [a, b]) (hab : (outbox ca b).map Prod.snd = inbox cb a)
    (hac : (outbox ca c).map Prod.snd = inbox cc a) (hba : (outbox cb a).map Prod.snd = inbox ca b)
    (hbc : (outbox cb c).map Prod.snd = inbox cc b) (hca : (outbox cc a).map Prod.snd = inbox ca c)
    (hcb : (outbox cc b).map Prod.snd = inbox cb c)
    (hvolley : ∀ d ∈ [ca, cb, cc], d.Volley ∧ d.count ≤ capacity) :
    (trio a b c ca cb cc).Phase capacity S := by
  have hamong := among_trio h ha hb hc
  have hcourse (p : Nat) : trio a b c ca cb cc p ∈ [ca, cb, cc, []] := by
    rw [trio]
    split_ifs <;> simp
  have hall (p : Nat) :
      (trio a b c ca cb cc p).Volley ∧ (trio a b c ca cb cc p).count ≤ capacity := by
    have hmem := hcourse p
    generalize trio a b c ca cb cc p = d at hmem
    simp only [List.mem_cons, List.not_mem_nil, or_false, forall_eq_or_imp, forall_eq] at hmem hvolley
    rcases hmem with rfl | rfl | rfl | rfl
    · exact hvolley.1
    · exact hvolley.2.1
    · exact hvolley.2.2
    · exact ⟨.nil, Nat.zero_le _⟩
  exact ⟨hamong, balanced_trio h ha hb hc hab hac hba hbc hca hcb,
    hamong.completes_of_volley (fun p => (hall p).1) fun p => (hall p).2⟩

theorem phase_deliver (h : Apart S a b c) (hcap : 1 ≤ capacity) (phase : String) (message : Bytes) :
    (trio a b c [] [.receive c message] [.send b phase message]).Phase capacity S := by
  have hab := h.first_ne_second
  have hac := h.first_ne_third
  apply phase_trio h <;>
    simp [Uses, Volley, Course.count, Action.peers, Action.outgoing, Action.incoming, hab.symm,
      hac.symm]
  omega

/-- Two ends send to the third one, which waits for both. -/
theorem phase_converge (h : Apart S a b c) (hcap : 2 ≤ capacity) (phase phase' : String)
    (message message' : Bytes) :
    (trio a b c [.send c phase message] [.send c phase' message']
      [.receiveBoth a message b message']).Phase capacity S := by
  have hab := h.first_ne_second
  have hac := h.first_ne_third
  have hbc := h.second_ne_third
  apply phase_trio h <;>
    simp [Uses, Volley, Course.count, Action.peers, Action.Sends, Action.outgoing, Action.incoming,
      hab, hab.symm, hac.symm, hbc.symm]
  omega

/-- Two ends send to each other, and then each waits for what the other one sent. -/
theorem phase_exchange (h : Apart S a b c) (hcap : 2 ≤ capacity) (phase phase' : String)
    (message message' : Bytes) :
    (trio a b c [.send b phase message, .receive b message']
      [.send a phase' message', .receive a message] []).Phase capacity S := by
  have hac := h.first_ne_third
  have hbc := h.second_ne_third
  apply phase_trio h <;>
    simp [Uses, Volley, Course.count, Action.peers, Action.Sends, Action.outgoing, Action.incoming,
      hac, hbc]
  omega

end Timetable

end ObliviousRouting
