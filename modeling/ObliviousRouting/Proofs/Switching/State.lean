import ObliviousRouting.Proofs.CoinToss.Agreement
import ObliviousRouting.Proofs.Keystream.Lawful
import ObliviousRouting.Proofs.Pass.Place
import ObliviousRouting.Proofs.Reveal.Courses
import ObliviousRouting.Proofs.Switching.Greeting
import ObliviousRouting.Switching.State

/-!
# What a run relies on

The stages of a run need no more of the randomness than its lengths, and that shuffles are shuffles.
They need rows that can be addressed and that fit into buffers. A stage that works on a part of the state
leaves the rest of it as it is.
-/

namespace ObliviousRouting.Switching

open Role

/-- Sizes with which all stages of a run go through. -/
structure Sizes (n width : Nat) (size : BatchSize) : Prop where
  rows_lt : n < Target.rowLimit
  bytes_lt : n * width < Size.bufferLimit
  width_lt : width < Size.bufferLimit
  width_pos : n = 0 ∨ 0 < width
  batch_lt : size.rows < Size.limit

theorem Sizes.fits {n width : Nat} {size : BatchSize} (h : Sizes n width size) : size.Fits n :=
  Target.fits_of_lt h.rows_lt h.batch_lt

/-- The randomness of a run has the lengths that `n` rows need. -/
structure Expansion.Lawful (x : Expansion) (n width : Nat) (size : BatchSize) : Prop where
  selecting (seed : Seed) : (x.selecting seed).Lawful
  scattering (seed : Seed) : (x.scattering seed).Lawful
  length_flips (seed : Seed) : (x.flips seed n).length = n
  pads (seed : Seed) : (x.pads seed).Cover n width size
  length_fresh (tape : Tape) : (x.fresh tape (n * width)).1.length = n * width

theorem Expansion.lawful_keystreams (n width : Nat) (size : BatchSize) :
    keystreams.Lawful n width size where
  selecting := Blinding.lawful_ofSeed
  scattering := Blinding.lawful_ofSeed
  length_flips _ := Keystream.length_bits ..
  pads _ _ _ := ⟨Keystream.length_bytes .., Keystream.length_bytes ..⟩
  length_fresh _ := Keystream.length_bytes ..

/-! ### Parts of a state -/

section

variable {α : Type} {c : Course} {a : α}

theorem PlannerState.performs_onTape {x : Role Tape SwitchError α} {s : PlannerState} {tape : Tape}
    (h : Performs x s.tape c a tape) : Performs (onTape x) s c a { s with tape } :=
  Performs.within h

theorem PlannerState.performs_onDest {x : Role RowBuffer PassError α} {s : PlannerState}
    {dest : RowBuffer} (h : Performs x s.dest c a dest) : Performs (onDest x) s c a { s with dest } :=
  Performs.mapError SwitchError.pass (Performs.within h)

theorem OwnerState.performs_onTape {x : Role Tape SwitchError α} {s : OwnerState} {tape : Tape}
    (h : Performs x s.tape c a tape) : Performs (onTape x) s c a { s with tape } :=
  Performs.within h

theorem OwnerState.performs_onDest {x : Role RowBuffer PassError α} {s : OwnerState}
    {dest : RowBuffer} (h : Performs x s.dest c a dest) : Performs (onDest x) s c a { s with dest } :=
  Performs.mapError SwitchError.pass (Performs.within h)

end

theorem performs_toss (parties : Parties) (own other : Part) (opened : Word256) (phase : String)
    (tape : Tape) :
    Performs (toss parties own other phase) tape
      (CoinToss.course (parties.of own) (parties.of other) tape.secret.1 opened phase)
      (tape.secret.1.xor opened) tape.secret.2 :=
  Performs.mapError SwitchError.toss (CoinToss.performs_toss ..)

end ObliviousRouting.Switching
