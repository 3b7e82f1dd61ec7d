import ObliviousRouting.BatchSize.Basic
import ObliviousRouting.Bytes.Text
import ObliviousRouting.Switching.Error

/-!
# Parts, shapes and greetings

Three parties take the parts of a run: the planner knows the routing plan, the owner has the source
rows, and the helper assists. Before anything else they compare the shape of the run, which each of them
knows on its own account, by exchanging it as a line of text.
-/

namespace ObliviousRouting.Switching

/-- What a party does in a run. -/
inductive Part where
  /-- Knows the plan and ends with one share of the destination rows. -/
  | planner
  /-- Has the source rows and ends with the other share. -/
  | owner
  /-- Assists and ends with nothing. -/
  | helper
deriving DecidableEq, Repr

def Part.name : Part → String
  | .planner => "program"
  | .owner => "send_recv"
  | .helper => "help"

def Part.all : List Part := [.planner, .owner, .helper]

def Part.peers (own : Part) : List Part := Part.all.filter (· ≠ own)

/-- The number of the party that takes each part. -/
structure Parties where
  planner : Nat := 0
  owner : Nat := 1
  helper : Nat := 2
deriving DecidableEq, Repr

def Parties.of (parties : Parties) : Part → Nat
  | .planner => parties.planner
  | .owner => parties.owner
  | .helper => parties.helper

/-- The kind of routing. -/
inductive Kind where
  /-- A source feeds at most one destination. -/
  | permutation
  /-- A source feeds any number of destinations. -/
  | general
deriving DecidableEq, Repr

def Kind.name : Kind → String
  | .permutation => "permutation"
  | .general => "general"

/-- What all parties of a run have to agree on. -/
structure Shape where
  kind : Kind
  sourceRows : Nat
  destinationRows : Nat
  stride : Nat
  size : BatchSize
deriving DecidableEq, Repr

namespace Shape

/-- The number of rows between selecting and scattering. -/
def selectRows (shape : Shape) : Nat := max shape.sourceRows shape.destinationRows

def describe (shape : Shape) : String :=
  s!"{shape.kind.name} src_rows={shape.sourceRows} dest_rows={shape.destinationRows} " ++
    s!"stride={shape.stride} batch={shape.size.rows}"

/-- The line with which a part greets the others. -/
def greeting (shape : Shape) (part : Part) : String := s!"{part.name}: {shape.describe}"

end Shape

/-! ### Greetings

Every part tells both others the shape it sees, and goes on only if both tell it the same shape. Both greetings
are sent before any is awaited, so no part waits for another one here. -/

variable {σ : Type}

def greetingPhase : String := "handshake"

/-- Waits for the greeting of a part and compares it with what it should be. Bytes that are no text are
read as replacement characters. -/
def receiveGreeting (party : Nat) (expected : String) : Role σ SwitchError Unit := do
  let message ← Role.mapError .link (Role.receiveBytes party greetingPhase)
  let actual := Text.decode message
  if actual = expected then return ()
  else Role.fail (.greetingMismatch expected actual)

/-- Greets the other parts, then checks their greetings. -/
def greet (parties : Parties) (own : Part) (shape : Shape) : Role σ SwitchError Unit := do
  own.peers.forM fun peer =>
    Role.mapError .link
      (Role.sendBytes (parties.of peer) greetingPhase (Text.encode (shape.greeting own)))
  own.peers.forM fun peer => receiveGreeting (parties.of peer) (shape.greeting peer)

end ObliviousRouting.Switching
