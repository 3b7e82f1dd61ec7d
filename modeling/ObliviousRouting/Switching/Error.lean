import ObliviousRouting.CoinToss
import ObliviousRouting.Pass.Roles
import ObliviousRouting.Plan.Basic
import ObliviousRouting.Reveal.Roles

/-!
# Errors of a switching run

A part stops with an error of one of the protocols that it goes through, or with one of its own.
-/

namespace ObliviousRouting

inductive SwitchError where
  | link (e : LinkError)
  | toss (e : TossError)
  | plan (e : PlanError)
  | pass (e : PassError)
  | reveal (e : RevealError)
  /-- A party sees another shape of the run. -/
  | greetingMismatch (expected actual : String)
  /-- A source feeds several destinations where that is not allowed. -/
  | sourceRepeated
  /-- Some destination is not fed, or some is fed twice. -/
  | incomplete (edges rows : Nat)
  | destinationRepeated (destination : Nat)
  /-- A buffer does not fit the plan. -/
  | rowsMismatch (expected actual : Nat)
  | strideMismatch (source destination : Nat)
deriving DecidableEq, Repr

def SwitchError.message : SwitchError → String
  | .link e => e.message
  | .toss e => e.message
  | .plan e => e.message
  | .pass e => e.message
  | .reveal e => e.message
  | .greetingMismatch expected actual =>
    s!"handshake mismatch: expected '{expected}', but received '{actual}'"
  | .sourceRepeated => "the routing feeds a source into more than one destination"
  | .incomplete edges rows => s!"{edges} routing entries for {rows} destination rows"
  | .destinationRepeated destination =>
    s!"destination {destination} is fed by more than one source"
  | .rowsMismatch expected actual => s!"expected {expected} rows, but the buffer has {actual} rows"
  | .strideMismatch source destination =>
    s!"source rows are {source} bytes wide, but destination rows are {destination} bytes wide"

end ObliviousRouting
