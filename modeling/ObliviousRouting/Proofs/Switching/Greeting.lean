import ObliviousRouting.Proofs.Bytes.Text
import ObliviousRouting.Proofs.Network.Alone
import ObliviousRouting.Proofs.Network.Phases
import ObliviousRouting.Proofs.Switching.Lines
import ObliviousRouting.Switching.Greeting

/-!
# Greetings are understood

Parts that see the same shape greet each other with the lines that they expect. All greetings are sent
before any is awaited, so nobody waits in vain. A part goes on behind the greetings only if it was told just
the lines that it expects, and then nothing but the links has changed.
-/

namespace ObliviousRouting.Switching

open Role

/-- Three different ends of a mesh take the parts. -/
structure Parties.Seated (parties : Parties) (ends : Nat) : Prop where
  planner_ne_owner : parties.planner ≠ parties.owner
  planner_ne_helper : parties.planner ≠ parties.helper
  owner_ne_helper : parties.owner ≠ parties.helper
  planner_lt : parties.planner < ends
  owner_lt : parties.owner < ends
  helper_lt : parties.helper < ends

def Parties.all (parties : Parties) : List Nat := [parties.planner, parties.owner, parties.helper]

theorem Parties.Seated.apart {parties : Parties} {ends : Nat} (h : parties.Seated ends) :
    Timetable.Apart parties.all parties.planner parties.owner parties.helper :=
  ⟨by simp [Parties.all], by simp [Parties.all], by simp [Parties.all], h.planner_ne_owner,
    h.planner_ne_helper, h.owner_ne_helper⟩

theorem Part.mem_all (own : Part) : own ∈ Part.all := by cases own <;> decide

theorem Part.mem_peers {own peer : Part} : peer ∈ own.peers ↔ peer ≠ own := by
  simp [peers, peer.mem_all]

theorem Parties.Seated.of_ne {parties : Parties} {ends : Nat} (h : parties.Seated ends) {a b : Part}
    (hne : a ≠ b) : parties.of a ≠ parties.of b := by
  have hpo := h.planner_ne_owner
  have hph := h.planner_ne_helper
  have hoh := h.owner_ne_helper
  cases a <;> cases b
  · exact absurd rfl hne
  · exact hpo
  · exact hph
  · exact hpo.symm
  · exact absurd rfl hne
  · exact hoh
  · exact hph.symm
  · exact hoh.symm
  · exact absurd rfl hne

theorem Parties.Seated.of_inj {parties : Parties} {ends : Nat} (h : parties.Seated ends) {a b : Part} :
    parties.of a = parties.of b ↔ a = b :=
  ⟨fun heq => by_contra fun hne => h.of_ne hne heq, congrArg _⟩

variable {σ : Type}

/-- What a part does to greet the others and to be greeted by them, each with the shape that it sees. -/
def greetCourse (parties : Parties) (shapes : Part → Shape) (own : Part) : Course :=
  (own.peers.flatMap fun peer =>
    [.send (parties.of peer) greetingPhase (Text.encode ((shapes own).greeting own))]) ++
  own.peers.flatMap fun peer =>
    [.receive (parties.of peer) (Text.encode ((shapes peer).greeting peer))]

def greetings (parties : Parties) (shapes : Part → Shape) : Timetable :=
  .trio parties.planner parties.owner parties.helper (greetCourse parties shapes .planner)
    (greetCourse parties shapes .owner) (greetCourse parties shapes .helper)

theorem phase_greetings {parties : Parties} {S : List Nat} {capacity : Nat}
    (h : Timetable.Apart S parties.planner parties.owner parties.helper) (hcap : 4 ≤ capacity)
    (shapes : Part → Shape) : (greetings parties shapes).Phase capacity S := by
  have hpo := h.first_ne_second
  have hph := h.first_ne_third
  have hoh := h.second_ne_third
  apply Timetable.phase_trio h <;>
    simp [greetCourse, Part.peers, Part.all, Parties.of, Course.Uses, Course.Volley, Course.count,
      Action.peers, Action.Sends, Action.outgoing, Action.incoming, hpo, hph, hoh, hpo.symm, hph.symm,
      hoh.symm, hcap]

theorem performs_greet (parties : Parties) (shape : Shape) (own : Part) (s : σ) :
    Performs (greet parties own shape) s (greetCourse parties (fun _ => shape) own) () s := by
  refine Performs.bind (Performs.forM fun peer _ => ?_) (Performs.forM fun peer _ => ?_)
  · exact Performs.mapError SwitchError.link (Performs.sendBytes ..)
  · apply Performs.bind_end (Performs.mapError SwitchError.link (Performs.receiveBytes ..))
    simp only [Text.decode_encode, if_true]
    exact .pure () s

/-! ### Greetings that are waited for -/

theorem needs_receiveGreeting (party : Nat) (shape : Shape) (peer : Part) (s : σ) :
    Needs (receiveGreeting party (shape.greeting peer)) s
      [.answered party (.ok (Text.encode (shape.greeting peer)))] := by
  intro events q h
  cases h with
  | refl => exact ⟨List.nil_prefix, fun a s' hdone => by cases hdone⟩
  | receive r h =>
    cases r with
    | error failure =>
      obtain ⟨rfl, rfl⟩ := Process.Meets.of_done h
      exact ⟨List.nil_prefix, fun a s' hdone => by cases hdone⟩
    | ok message =>
      change Process.Meets (Role.start (if Text.decode message = shape.greeting peer then pure ()
        else Role.fail _) s) _ q at h
      split at h
      · next heq =>
        obtain ⟨rfl, rfl⟩ := Process.Meets.of_done h
        refine ⟨List.nil_prefix, fun a s' hdone => ?_⟩
        cases hdone
        rw [Shape.eq_encode_greeting heq]
        exact ⟨rfl, rfl⟩
      · obtain ⟨rfl, rfl⟩ := Process.Meets.of_done h
        exact ⟨List.nil_prefix, fun a s' hdone => by cases hdone⟩

/-- What has to happen on the links of a part for its greetings to go well. -/
def greetingEvents (parties : Parties) (shape : Shape) (own : Part) : List Process.Event :=
  (own.peers.flatMap fun peer =>
    [.sent (parties.of peer) greetingPhase (Text.encode (shape.greeting own))]) ++
  own.peers.flatMap fun peer => [.answered (parties.of peer) (.ok (Text.encode (shape.greeting peer)))]

theorem needs_greet (parties : Parties) (shape : Shape) (own : Part) (s : σ) :
    Needs (greet parties own shape) s (greetingEvents parties shape own) :=
  Needs.bind (Needs.forM fun _ _ => Needs.mapError SwitchError.link (Needs.sendBytes _ _ _ s))
    fun _ => Needs.forM fun _ _ => needs_receiveGreeting _ _ _ s

theorem eq_of_returns_greet {parties : Parties} {shape : Shape} {own : Part} {s s' : σ}
    (h : Returns (greet parties own shape) s () s') : s' = s :=
  (needs_greet parties shape own s).eq_of_returns h

end ObliviousRouting.Switching
