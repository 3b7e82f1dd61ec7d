import ObliviousRouting.Plan.Basic
import ObliviousRouting.Switching.Error
import ObliviousRouting.Switching.Greeting

/-!
# What the parts of a switching run work on

Each part has a tape of its own; planner and owner also have a buffer of destination rows, and the
planner has its plan. What seeds and tapes are expanded to is a parameter of a run. Normally these are
keystreams, but nothing in the protocol depends on that.
-/

namespace ObliviousRouting.Switching

/-- What the random choices of a run are made from. -/
structure Expansion where
  selecting : Seed → Blinding
  scattering : Seed → Blinding
  flips : Seed → Reveal.Flips
  pads : Seed → Reveal.Pads
  fresh : Tape → Nat → Bytes × Tape

/-- All random choices are read from keystreams. -/
def Expansion.keystreams : Expansion where
  selecting := Blinding.ofSeed
  scattering := Blinding.ofSeed
  flips := Reveal.Flips.ofSeed
  pads := Reveal.Pads.ofSeed
  fresh := Tape.fill

structure PlannerState where
  tape : Tape
  plan : Plan
  dest : RowBuffer
deriving DecidableEq, Repr

structure OwnerState where
  tape : Tape
  dest : RowBuffer
deriving DecidableEq, Repr

variable {α : Type}

namespace PlannerState

def onTape (x : Role Tape SwitchError α) : Role PlannerState SwitchError α :=
  Role.within tape (fun tape s => { s with tape }) x

def onDest (x : Role RowBuffer PassError α) : Role PlannerState SwitchError α :=
  Role.mapError .pass (Role.within dest (fun dest s => { s with dest }) x)

end PlannerState

namespace OwnerState

def onTape (x : Role Tape SwitchError α) : Role OwnerState SwitchError α :=
  Role.within tape (fun tape s => { s with tape }) x

def onDest (x : Role RowBuffer PassError α) : Role OwnerState SwitchError α :=
  Role.mapError .pass (Role.within dest (fun dest s => { s with dest }) x)

end OwnerState

/-- Agrees on a seed with another part. -/
def toss (parties : Parties) (own other : Part) (phase : String) : Role Tape SwitchError Seed :=
  Role.mapError .toss (CoinToss.toss (parties.of own) (parties.of other) phase)

end ObliviousRouting.Switching
