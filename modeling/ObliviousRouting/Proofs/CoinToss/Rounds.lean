import Mathlib.Data.List.Zip
import ObliviousRouting.Proofs.CoinToss.Agreement
import ObliviousRouting.Proofs.Network.Results

/-!
# One toss after another

Two honest parties that toss coins one after the other use the same two links again and again. Every toss
leaves these links empty, so the next one finds what it expects, and both parties get the same seeds.
-/

namespace ObliviousRouting.CoinToss

open Role

variable {a b : Nat} {phase : String}

/-- The secrets that two parties open to each other in so many tosses. -/
def secretPairs (tape tape' : Tape) (count : Nat) : List (Word256 × Word256) :=
  (tape.secrets count).zip (tape'.secrets count)

def seeds (tape tape' : Tape) (count : Nat) : List Seed :=
  (secretPairs tape tape' count).map fun (secret, opened) => secret.xor opened

theorem length_secrets (tape : Tape) (count : Nat) : (tape.secrets count).length = count := by
  induction count generalizing tape with
  | zero => rfl
  | succ count ih => rw [Tape.secrets, List.length_cons, ih]

theorem length_seeds (tape tape' : Tape) (count : Nat) : (seeds tape tape' count).length = count := by
  rw [seeds, List.length_map, secretPairs, List.length_zip, length_secrets, length_secrets, Nat.min_self]

theorem secretPairs_swap (tape tape' : Tape) (count : Nat) :
    secretPairs tape' tape count = (secretPairs tape tape' count).map Prod.swap :=
  (List.zip_swap ..).symm

/-- It does not matter whose secrets come first. -/
theorem seeds_comm (tape tape' : Tape) (count : Nat) : seeds tape' tape count = seeds tape tape' count := by
  rw [seeds, seeds, secretPairs_swap, List.map_map]
  exact List.map_congr_left fun m _ => Word256.xor_comm ..

def tossesCourse (own other : Nat) (pairs : List (Word256 × Word256)) (phase : String) : Course :=
  pairs.flatMap fun (secret, opened) => course own other secret opened phase

/-- The courses of two parties. -/
def tossesTimetable (a b : Nat) (pairs : List (Word256 × Word256)) (phase : String) : Timetable :=
  fun p => if p = a then tossesCourse a b pairs phase
    else if p = b then tossesCourse b a (pairs.map Prod.swap) phase else []

theorem phase_tosses (hab : a ≠ b) {capacity : Nat} (hcap : 2 ≤ capacity)
    (pairs : List (Word256 × Word256)) (phase : String) :
    (tossesTimetable a b pairs phase).Phase capacity [a, b] := by
  -- a third end, which takes no part
  obtain ⟨c, hac, hbc⟩ : ∃ c, a ≠ c ∧ b ≠ c := ⟨a + b + 1, by omega, by omega⟩
  have hjoin : Timetable.join (pairs.map fun m => timetable a b c m.1 m.2 phase) =
      tossesTimetable a b pairs phase := by
    have htrio := Timetable.join_map_trio (a := a) (b := b) (c := c) pairs
      (fun m => course a b m.1 m.2 phase) (fun m => course b a m.2 m.1 phase) (fun _ => [])
    refine htrio.trans (funext fun p => ?_)
    rw [Timetable.trio, tossesTimetable, tossesCourse, tossesCourse, List.flatMap_map]
    split_ifs <;> simp
  rw [← hjoin]
  apply Timetable.Phase.narrow (S := [a, b, c])
  · apply Timetable.Phase.join
    intro A hA
    obtain ⟨m, -, rfl⟩ := List.mem_map.1 hA
    exact phase_timetable ⟨by simp, by simp, by simp, hab, hac, hbc⟩ hcap ..
  · intro p hp
    rw [List.mem_pair, not_or] at hp
    rw [hjoin, tossesTimetable, if_neg hp.1, if_neg hp.2]

theorem follows_tosses (own other : Nat) (phase : String) (count : Nat) (tape tape' : Tape) :
    (tosses own other phase count tape).Follows
      (tossesCourse own other (secretPairs tape tape' count) phase)
      ((seeds tape tape' count).map .ok) := by
  induction count generalizing tape tape' with
  | zero => exact .done _
  | succ count ih =>
    have hrest := (ih tape.secret.2 tape'.secret.2).map
      fun results => (.ok (tape.secret.1.xor tape'.secret.1) : Outcome TossError Seed) :: results
    exact Process.Follows.bind (performs_toss own other tape'.secret.1 phase tape) hrest

/-- Two parties that toss coins with each other, one toss after another. -/
def tossSeats (a b : Nat) (phase : String) (count : Nat) (tape tape' : Tape) :
    List (Seat (List (Outcome TossError Seed))) :=
  [⟨a, tosses a b phase count tape⟩, ⟨b, tosses b a phase count tape'⟩]

/-- In every order of steps, both parties get the same seed in every toss, and leave nothing on any link. -/
theorem settles_tosses (hab : a ≠ b) {ends : Nat} (ha : a < ends) (hb : b < ends) (phase : String)
    (count : Nat) (tape tape' : Tape) :
    Seat.Settles (tossSeats a b phase count tape tape', { parties := ends, capacity := 1024 })
      fun seats m =>
        seats.map (·.process) =
            [.done ((seeds tape tape' count).map .ok), .done ((seeds tape tape' count).map .ok)] ∧
          ∀ p q, m.queue p q = [] := by
  have hunderway : Underway
      (fun p q => Course.outbox (tossesTimetable a b (secretPairs tape tape' count) phase p) q)
      [(seeds tape tape' count).map .ok, (seeds tape tape' count).map .ok]
      (tossSeats a b phase count tape tape') { parties := ends }
      (tossesTimetable a b (secretPairs tape tape' count) phase) := by
    apply Timetable.Phase.underway
    · exact phase_tosses hab (by decide) ..
    · refine .cons ?_ (.cons ?_ .nil)
      · rw [tossesTimetable, if_pos rfl]
        exact follows_tosses ..
      · rw [tossesTimetable, if_neg hab.symm, if_pos rfl, ← secretPairs_swap, ← seeds_comm]
        exact follows_tosses ..
    · simp [tossSeats, hab]
    · simp [tossSeats, ha, hb]
  intro seats m hsteps
  refine ⟨(hunderway.run_step_or_ended hsteps).imp_right fun hended => ?_, Seat.step_wf.apply _⟩
  exact ⟨hended.results_eq, hended.queue_eq⟩

end ObliviousRouting.CoinToss
