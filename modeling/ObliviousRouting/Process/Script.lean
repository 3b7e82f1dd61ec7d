import ObliviousRouting.Process.Basic

/-!
# Scripted links

Runs one process alone: the messages that it will receive are given beforehand, one list for each
party. A receive never waits; where nothing is left it fails. Of two parties that a process waits for,
the first one answers.
-/

namespace ObliviousRouting

/-- The messages that a process will receive, how many more it can send, and what it has sent. -/
structure Script where
  /-- The messages of each party that are still to be received. -/
  incoming : Nat → List Bytes
  /-- The number of messages that will still be taken, if there is a limit. -/
  sendsLeft : Option Nat := none
  /-- The messages that were taken, each with its target and phase, in order. -/
  sent : List (Nat × String × Bytes) := []

namespace Script

def send (s : Script) (target : Nat) (phase : String) (message : Bytes) : Sent × Script :=
  if s.sendsLeft = some 0 then (.error .full, s)
  else (.ok (), { s with
    sendsLeft := s.sendsLeft.map (· - 1)
    sent := s.sent ++ [(target, phase, message)] })

def receive (s : Script) (source : Nat) : Received × Script :=
  match s.incoming source with
  | [] => (.error .empty, s)
  | message :: rest =>
    (.ok message, { s with incoming := fun p => if p = source then rest else s.incoming p })

end Script

def Process.play {α : Type} (p : Process α) (s : Script) : α × Script :=
  match p with
  | .done a => (a, s)
  | .send target phase message next =>
    let (r, s) := s.send target phase message
    (next r).play s
  | .receive source next =>
    let (r, s) := s.receive source
    (next r).play s
  | .receiveEither first _ onFirst _ =>
    let (r, s) := s.receive first
    (onFirst r).play s

end ObliviousRouting
