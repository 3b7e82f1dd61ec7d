import ObliviousRouting.Proofs.Keystream.Lawful
import ObliviousRouting.Proofs.Network.Results
import ObliviousRouting.Proofs.Network.Rounds
import ObliviousRouting.Proofs.Reveal.Courses

/-!
# The choosing party learns what it chose

The offering, the serving and the choosing party go on at their own speed. In every order of their steps
they end well, and the choosing party has the second row of a pair where its choice is set, and the first
one elsewhere: its flip bit has exchanged the rows and moved its choice along with them, and the pad that
it is served is the one on the row that it asked for.
-/

namespace ObliviousRouting.Reveal

open Bytes Role

theorem Pads.cover_ofSeed (seed : Seed) (n width : Nat) (size : BatchSize) :
    (Pads.ofSeed seed).Cover n width size :=
  fun _ _ => ⟨Keystream.length_bytes .., Keystream.length_bytes ..⟩

/-- How one of the three parties of a reveal has ended. -/
inductive Ending where
  | offered (result : Outcome RevealError Unit)
  | served (result : Outcome RevealError Unit)
  | chose (result : Outcome RevealError RowBuffer)

/-- An offer of pairs of rows: the ends of the three parties, the seeds that two of them share, the rows that
make the pairs, and the choices between them. -/
structure Offer where
  ends : Nat
  offering : Nat
  serving : Nat
  chooser : Nat
  flips : Seed
  pads : Seed
  rows₀ : RowBuffer
  rows₁ : RowBuffer
  choices : List Bool
  size : BatchSize
  phase : String

namespace Offer

variable (o : Offer)

def seats : List (Seat Ending) :=
  [⟨o.offering,
      (offer (.ofSeed o.flips) (.ofSeed o.pads) o.chooser o.rows₀ o.rows₁ o.size o.phase).start () >>=
        fun (result, _) => pure (.offered result)⟩,
    ⟨o.serving,
      (serve (.ofSeed o.pads) o.chooser o.choices.length o.rows₀.stride o.size o.phase).start () >>=
        fun (result, _) => pure (.served result)⟩,
    ⟨o.chooser,
      (choose (.ofSeed o.flips) o.offering o.serving o.choices o.rows₀.stride o.size o.phase).start () >>=
        fun (result, _) => pure (.chose result)⟩]

/-- Three parties at ends of their own, two buffers of the same shape with a row in each for every choice,
and sizes that a machine has. -/
structure Matched : Prop where
  offering_ne_serving : o.offering ≠ o.serving
  offering_ne_chooser : o.offering ≠ o.chooser
  serving_ne_chooser : o.serving ≠ o.chooser
  offering_lt : o.offering < o.ends
  serving_lt : o.serving < o.ends
  chooser_lt : o.chooser < o.ends
  stride_pos : 1 ≤ o.rows₀.stride
  stride_eq : o.rows₁.stride = o.rows₀.stride
  size₀_eq : o.rows₀.size = o.choices.length
  size₁_eq : o.rows₁.size = o.choices.length
  fits : o.rows₀.data.size < Size.bufferLimit
  batch_lt : o.size.rows < Size.limit

/-- One row of each pair: the second one where the choice is set, and the first one elsewhere. -/
structure Learned (chosen : RowBuffer) : Prop where
  stride_eq : chosen.stride = o.rows₀.stride
  size_eq : chosen.size = o.choices.length
  rowAt_eq : ∀ i (hi : i < o.choices.length),
    chosen.rowAt i = if o.choices[i] then o.rows₁.rowAt i else o.rows₀.rowAt i

def chosen : RowBuffer := .ofRows o.rows₀.stride (pick o.choices o.rows₀.toList o.rows₁.toList)

def courses : Timetable :=
  timetable o.choices (Flips.ofSeed o.flips o.choices.length) (.ofSeed o.pads) o.rows₀.toList
    o.rows₁.toList o.choices.length o.rows₀.stride o.size o.phase o.offering o.serving o.chooser

variable {o}

namespace Matched

theorem holds₀ (h : o.Matched) : o.rows₀.Holds o.rows₀.stride o.rows₀.toList :=
  RowBuffer.holds_toList h.fits

theorem holds₁ (h : o.Matched) : o.rows₁.Holds o.rows₀.stride o.rows₁.toList := by
  rw [← h.stride_eq]
  apply RowBuffer.holds_toList
  rw [RowBuffer.data_size_eq h.stride_eq (h.size₁_eq.trans h.size₀_eq.symm)]
  exact h.fits

theorem length₀ (h : o.Matched) : o.rows₀.toList.length = o.choices.length := by
  rw [RowBuffer.length_toList, h.size₀_eq]

theorem length₁ (h : o.Matched) : o.rows₁.toList.length = o.choices.length := by
  rw [RowBuffer.length_toList, h.size₁_eq]

theorem bytes_lt (h : o.Matched) : o.choices.length * o.rows₀.stride < Size.bufferLimit :=
  h.holds₀.mul_lt (Nat.le_of_eq h.length₀.symm)

theorem size_fits (h : o.Matched) : o.size.Fits o.choices.length :=
  ⟨h.batch_lt, Nat.le_of_lt (Nat.lt_of_le_of_lt (Nat.le_mul_of_pos_right _ h.stride_pos) h.bytes_lt)⟩

/-- The rows that the choices find are all that is learned. -/
theorem learned_chosen (h : o.Matched) : o.Learned o.chosen := by
  have hlength : (pick o.choices o.rows₀.toList o.rows₁.toList).length = o.choices.length :=
    length_pick rfl h.length₀ h.length₁
  have hholds : o.chosen.Holds o.rows₀.stride (pick o.choices o.rows₀.toList o.rows₁.toList) :=
    RowBuffer.holds_ofRows (uniform_pick h.holds₀.uniform h.holds₁.uniform) (.inr h.stride_pos)
      (by rw [hlength]; exact h.bytes_lt)
  refine ⟨hholds.stride_eq, hholds.size_eq.trans hlength, fun i hi => ?_⟩
  have hi₀ : i < o.rows₀.toList.length := h.length₀ ▸ hi
  have hi₁ : i < o.rows₁.toList.length := h.length₁ ▸ hi
  rw [hholds.rowAt_eq, h.holds₀.rowAt_eq, h.holds₁.rowAt_eq, List.getD_eq_getElem _ _ (hlength ▸ hi),
    List.getD_eq_getElem _ _ hi₀, List.getD_eq_getElem _ _ hi₁, getElem_pick _ hi hi₀ hi₁]

theorem underway (h : o.Matched) :
    Underway (fun p q => Course.outbox (o.courses p) q)
      [.offered (.ok ()), .served (.ok ()), .chose (.ok o.chosen)] o.seats { parties := o.ends }
      o.courses := by
  have hflips : (Flips.ofSeed o.flips o.choices.length).length = o.choices.length :=
    Keystream.length_bits ..
  have hpads := Pads.cover_ofSeed o.pads o.choices.length o.rows₀.stride o.size
  have hapart : Timetable.Apart [o.offering, o.serving, o.chooser] o.offering o.serving o.chooser :=
    ⟨by simp, by simp, by simp, h.offering_ne_serving, h.offering_ne_chooser, h.serving_ne_chooser⟩
  apply Timetable.Phase.underway
  · exact phase_timetable hapart (by decide) o.phase
  · refine .cons ?_ (.cons ?_ (.cons ?_ .nil))
    · rw [courses, timetable, Timetable.trio_first]
      exact (performs_offer (.ofSeed o.pads) h.holds₀ h.holds₁ h.length₀ h.length₁ hflips h.size_fits
        o.chooser o.phase ()).map fun ending => Ending.offered ending.1
    · rw [courses, timetable, Timetable.trio_second h.offering_ne_serving]
      exact (performs_serve (.ofSeed o.pads) rfl hflips h.bytes_lt h.size_fits o.chooser o.phase
        ()).map fun ending => Ending.served ending.1
    · rw [courses, timetable, Timetable.trio_third h.offering_ne_chooser h.serving_ne_chooser]
      exact (performs_choose (.ofSeed o.pads) rfl hflips hpads h.length₀ h.length₁ h.holds₀.uniform
        h.holds₁.uniform (.inr h.stride_pos) h.bytes_lt h.size_fits o.offering o.serving o.phase
        ()).map fun ending => Ending.chose ending.1
  · simp [seats, h.offering_ne_serving, h.offering_ne_chooser, h.serving_ne_chooser]
  · simp [seats, h.offering_lt, h.serving_lt, h.chooser_lt]

end Matched

/-- Every order of steps goes on until all three parties have ended well. Then the chosen rows are learned,
and nothing is left on any link. -/
theorem every_order_learns (h : o.Matched) : ∃ chosen, o.Learned chosen ∧
    Seat.Settles (o.seats, { parties := o.ends, capacity := 1024 }) fun seats m =>
      seats.map (·.process) =
          [.done (.offered (.ok ())), .done (.served (.ok ())), .done (.chose (.ok chosen))] ∧
        ∀ a b, m.queue a b = [] := by
  refine ⟨o.chosen, h.learned_chosen, fun seats m hsteps => ⟨?_, Seat.step_wf.apply _⟩⟩
  exact (h.underway.run_step_or_ended hsteps).imp_right fun hended => ⟨hended.results_eq, hended.queue_eq⟩

/-- Three pairs of rows of one byte, in two batches. -/
def threePairs : Offer where
  ends := 3
  offering := 0
  serving := 2
  chooser := 1
  flips := .zero
  pads := .zero
  rows₀ := ⟨#[1, 2, 3], 1, by decide⟩
  rows₁ := ⟨#[4, 5, 6], 1, by decide⟩
  choices := [true, false, true]
  size := ⟨2⟩
  phase := "t"

theorem every_order_learns_of_three_pairs : threePairs.Matched ∧ ∃ chosen, threePairs.Learned chosen ∧
    Seat.Settles (threePairs.seats, { parties := 3, capacity := 1024 }) fun seats m =>
      seats.map (·.process) =
          [.done (.offered (.ok ())), .done (.served (.ok ())), .done (.chose (.ok chosen))] ∧
        ∀ a b, m.queue a b = [] := by
  have hmatched : threePairs.Matched := by constructor <;> decide
  exact ⟨hmatched, every_order_learns hmatched⟩

end Offer

end ObliviousRouting.Reveal
