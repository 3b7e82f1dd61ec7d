import ObliviousRouting.Proofs.Network.Alone

/-!
# What can be on a link

Only what a process has in its tree does it ever hand to a link, also in a run that gets stuck, stops early
or lets time pass. So a kind of messages that no process can send is on no link after any run.
-/

namespace ObliviousRouting

variable {α : Type} {P : Nat → Nat → String → Bytes → Prop}

namespace Mesh

theorem sendings_of_send {m m' : Mesh} {a b : Nat} {phase : String} {message : Bytes} {r : Sent}
    (h : m.send a b phase message = some (r, m')) : m'.sendings = ⟨a, b, phase, message⟩ :: m.sendings := by
  simp only [send] at h
  split_ifs at h
  all_goals
    cases h
    rfl

theorem sendings_of_receive {m m' : Mesh} {a b : Nat} {r : Received} (h : m.receive a b = some (r, m')) :
    m'.sendings = m.sendings := by
  simp only [receive] at h
  split at h
  · cases h
    rfl
  · split at h
    · cases h
      rfl
    · split_ifs at h
      cases h
      rfl

/-- All that was handed to a link is of one kind. -/
def Carries (P : Nat → Nat → String → Bytes → Prop) (m : Mesh) : Prop :=
  ∀ t ∈ m.sendings, P t.source t.target t.phase t.message

namespace Carries

variable {m m' : Mesh} {a b : Nat}

theorem send (h : m.Carries P) {phase : String} {message : Bytes} {r : Sent} (hP : P a b phase message)
    (hsend : m.send a b phase message = some (r, m')) : m'.Carries P := by
  rw [Carries, sendings_of_send hsend]
  exact List.forall_mem_cons.2 ⟨hP, h⟩

theorem receive (h : m.Carries P) {r : Received} (hreceive : m.receive a b = some (r, m')) :
    m'.Carries P := by
  rw [Carries, sendings_of_receive hreceive]
  exact h

theorem serve {β : Type} {t : Ticket} {answer : Option (β × Mesh)} {r : β}
    (hanswer : ∀ r m', answer = some (r, m') → m'.Carries P) (hserve : m.serve t answer = some (r, m')) :
    m'.Carries P := by
  rw [Mesh.serve] at hserve
  split at hserve
  · obtain ⟨⟨r', m''⟩, hsome, heq⟩ := Option.map_eq_some_iff.1 hserve
    cases heq
    exact hanswer r m'' hsome
  · cases hserve

end Carries

theorem Carries.traffic {m : Mesh} (h : m.Carries P) {a b : Nat} {x : String × Bytes}
    (hx : x ∈ m.traffic a b) : P a b x.1 x.2 := by
  rw [Mesh.traffic, List.mem_reverse, List.mem_map] at hx
  obtain ⟨t, ht, rfl⟩ := hx
  obtain ⟨hmem, hon⟩ := List.mem_filter.1 ht
  rw [Sending.isOn, Bool.and_eq_true, beq_iff_eq, beq_iff_eq] at hon
  rw [← hon.1, ← hon.2]
  exact h t hmem

end Mesh

namespace Process

variable {Q : Nat → String → Bytes → Prop} {p q : Process α}

theorem SendsOnly.of_next (h : p.SendsOnly Q) (hnext : Next q p) : q.SendsOnly Q := by
  cases hnext with
  | send r => cases h with | send _ h => exact h r
  | receive r => cases h with | receive h => exact h r
  | first r => cases h with | receiveEither h _ => exact h r
  | second r => cases h with | receiveEither _ h => exact h r

theorem SendsOnly.of_below (h : p.SendsOnly Q) (hbelow : q.Below p) : q.SendsOnly Q := by
  induction hbelow with
  | single hnext => exact h.of_next hnext
  | tail _ hnext ih => exact ih (h.of_next hnext)

variable {who place : Nat} {m m' : Mesh}

theorem SendsOnly.carries_step? (h : p.SendsOnly (P place)) (hm : m.Carries P)
    (hstep : p.step? who place m = some (q, m')) : m'.Carries P := by
  cases h with
  | done a => cases hstep
  | send hP _ =>
    obtain ⟨⟨r, m''⟩, hserve, heq⟩ := Option.map_eq_some_iff.1 hstep
    cases heq
    exact Mesh.Carries.serve (fun _ _ hsend => hm.send hP hsend) hserve
  | receive _ =>
    obtain ⟨⟨r, m''⟩, hserve, heq⟩ := Option.map_eq_some_iff.1 hstep
    cases heq
    exact Mesh.Carries.serve (fun _ _ hreceive => hm.receive hreceive) hserve
  | receiveEither _ _ =>
    simp only [step?] at hstep
    split at hstep
    · next hserve =>
      cases hstep
      exact Mesh.Carries.serve (fun _ _ hreceive => hm.receive hreceive) hserve
    · obtain ⟨⟨r, m''⟩, hserve, heq⟩ := Option.map_eq_some_iff.1 hstep
      cases heq
      exact Mesh.Carries.serve (fun _ _ hreceive => hm.receive hreceive) hserve

theorem SendsOnly.carries_advance (h : p.SendsOnly (P place)) (hm : m.Carries P) :
    (p.advance who place m).2.1.Carries P := by
  fun_induction advance who place m p with
  | case1 m p _ => exact hm
  | case2 m p q m₁ hsome q' m' moved hadvance ih =>
    have hm' := ih (h.of_next (next_of_step? hsome)) (h.carries_step? hm hsome)
    rwa [hadvance] at hm'

end Process

namespace Seat

variable {seats seats' : List (Seat α)} {m : Mesh}

/-- Each of several processes can send messages of one kind only. -/
def SendOnly (P : Nat → Nat → String → Bytes → Prop) (seats : List (Seat α)) : Prop :=
  ∀ s ∈ seats, s.process.SendsOnly (P s.place)

theorem SendOnly.of_later (h : SendOnly P seats) (hlater : Later seats' seats) : SendOnly P seats' := by
  induction hlater with
  | head hbelow =>
    obtain ⟨hs, hrest⟩ := List.forall_mem_cons.1 h
    exact List.forall_mem_cons.2 ⟨hs.of_below hbelow, hrest⟩
  | both hbelow _ ih =>
    obtain ⟨hs, hrest⟩ := List.forall_mem_cons.1 h
    exact List.forall_mem_cons.2 ⟨hs.of_below hbelow, ih hrest⟩
  | tail _ ih =>
    obtain ⟨hs, hrest⟩ := List.forall_mem_cons.1 h
    exact List.forall_mem_cons.2 ⟨hs, ih hrest⟩

theorem SendOnly.carries_round (h : SendOnly P seats) (hm : m.Carries P) (stop : α → Bool) (who : Nat) :
    (round stop who m seats).mesh.Carries P := by
  induction seats generalizing who m with
  | nil => exact hm
  | cons s rest ih =>
    obtain ⟨hs, hrest⟩ := List.forall_mem_cons.1 h
    have hm' : (s.process.advance who s.place m).2.1.Carries P := hs.carries_advance hm
    simp only [round]
    split
    · exact hm'
    · exact ih hrest hm' (who + 1)

theorem SendOnly.round (h : SendOnly P seats) (stop : α → Bool) (who : Nat) (m : Mesh) :
    SendOnly P (Seat.round stop who m seats).seats := by
  rcases round_eq_or_later stop who m seats with ⟨-, heq⟩ | ⟨-, hlater⟩
  · rwa [heq]
  · exact h.of_later hlater

theorem SendOnly.carries_run (h : SendOnly P seats) (hm : m.Carries P) (stop : α → Bool) :
    (run stop m seats).2.Carries P := by
  fun_induction run stop m seats with
  | case1 m seats => exact h.carries_round hm stop 0
  | case2 m seats after _ _ ih => exact ih (h.round stop 0 m) (h.carries_round hm stop 0)
  | case3 m seats after _ _ hwaiting ih => exact ih (h.of_later (later_expireAll hwaiting)) hm
  | case4 m seats => exact hm

/-- After a run only such messages are on any link. -/
theorem SendOnly.traffic (h : SendOnly P seats) {parties a b : Nat} {x : String × Bytes}
    (hx : x ∈ (Mesh.run { parties } seats).2.traffic a b) : P a b x.1 x.2 := by
  have hnone : Mesh.Carries P { parties } := fun t ht => nomatch ht
  exact (h.carries_run hnone _).traffic hx

end Seat

end ObliviousRouting
