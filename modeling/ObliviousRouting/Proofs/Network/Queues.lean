import ObliviousRouting.Process.Script
import ObliviousRouting.Proofs.Network.Traces

/-!
# Messages that stand in queues

The messages that a process will be sent may be given beforehand, one queue for each end. In whatever order the
process comes to read them, an end answers with its messages one by one, and with failures once its queue is
empty. A script runs a process in this way.
-/

namespace ObliviousRouting

namespace Trace

/-- What an end answers in the course of a trace. -/
def answers (source : Nat) (trace : Trace) : List Received :=
  trace.filterMap fun
    | .sent .. => none
    | .received source' answer => if source' = source then some answer else none

variable {source source' : Nat} {trace trace' : Trace} {answer : Received}

theorem answers_append : answers source (trace ++ trace') = answers source trace ++ answers source trace' :=
  List.filterMap_append

@[simp] theorem answers_cons_self :
    answers source (.received source answer :: trace) = answer :: answers source trace :=
  List.filterMap_cons_some (if_pos rfl)

theorem answers_cons_of_ne (h : source' ≠ source) :
    answers source (.received source' answer :: trace) = answers source trace :=
  List.filterMap_cons_none (if_neg h)

theorem mem_answers (h : .received source answer ∈ trace) : answer ∈ answers source trace :=
  List.mem_filterMap.2 ⟨_, h, if_pos rfl⟩

end Trace

open Trace

/-- A queue answers with its messages one by one, and with failures once it is empty. -/
def Gives (queue : List Bytes) (answers : List Received) : Prop :=
  ∀ (i : Nat) (answer : Received), answers[i]? = some answer → answer.toOption = queue[i]?

namespace Gives

variable {queue : List Bytes} {answers : List Received}

theorem nil (queue : List Bytes) : Gives queue [] := by
  intro i answer h
  cases h

theorem cons_ok (h : Gives queue answers) (message : Bytes) :
    Gives (message :: queue) (.ok message :: answers) := by
  intro i answer hanswer
  cases i with
  | zero =>
    cases hanswer
    rfl
  | succ i => exact h i answer hanswer

theorem cons_error (h : Gives [] answers) (failure : ReceiveFailure) : Gives [] (.error failure :: answers) := by
  intro i answer hanswer
  cases i with
  | zero =>
    cases hanswer
    rfl
  | succ i => exact h i answer hanswer

end Gives

namespace Process

variable {α : Type}

/-- What a script gives to a process that waits. -/
theorem gives_receive (s : Script) (first source : Nat) {trace : Trace}
    (h : Gives ((s.receive first).2.incoming source) (answers source trace)) :
    Gives (s.incoming source) (answers source (.received first (s.receive first).1 :: trace)) := by
  by_cases heq : first = source
  · subst heq
    rw [answers_cons_self]
    rw [Script.receive] at h ⊢
    cases hqueue : s.incoming first with
    | nil =>
      rw [hqueue] at h
      exact (hqueue ▸ h).cons_error _
    | cons message queue =>
      rw [hqueue] at h
      simp only [if_pos] at h
      exact h.cons_ok message
  · rw [answers_cons_of_ne heq]
    rw [Script.receive] at h
    split at h
    · exact h
    · simp only [if_neg (Ne.symm heq)] at h
      exact h

/-- A process can be run with queues at its links. -/
theorem exists_plays (p : Process α) (s : Script) :
    ∃ trace, p.Plays trace (p.play s).1 ∧ ∀ source, Gives (s.incoming source) (answers source trace) := by
  induction p generalizing s with
  | done a => exact ⟨[], .done a, fun source => .nil _⟩
  | send target phase message next ih =>
    obtain ⟨trace, hplays, hgives⟩ := ih (s.send target phase message).1 (s.send target phase message).2
    have hincoming : (s.send target phase message).2.incoming = s.incoming := by
      rw [Script.send]
      split <;> rfl
    rw [hincoming] at hgives
    exact ⟨_ :: trace, .send _ hplays, hgives⟩
  | receive source next ih =>
    obtain ⟨trace, hplays, hgives⟩ := ih (s.receive source).1 (s.receive source).2
    exact ⟨_ :: trace, .receive _ hplays, fun source' => gives_receive s source source' (hgives source')⟩
  | receiveEither first second onFirst onSecond ih₁ ih₂ =>
    obtain ⟨trace, hplays, hgives⟩ := ih₁ (s.receive first).1 (s.receive first).2
    exact ⟨_ :: trace, .first _ hplays, fun source => gives_receive s first source (hgives source)⟩

end Process

end ObliviousRouting
