import ObliviousRouting.Mesh.Line
import ObliviousRouting.Process.Basic

/-!
# Meshes of links

A mesh connects each of its ends with every other one by two links, one in each direction. A link
delivers messages in the order in which they were sent and holds a limited number of them; nobody has a
link to itself. An end can be gone: then nothing can be sent to it, and what it had sent before can
still be received.

What becomes of a message on its way is a parameter of the mesh, so that losses, copies and changes
can be described. On a reliable mesh every message arrives once, as it was sent.
-/

namespace ObliviousRouting

/-- A message that was handed to a link, in vain or not. -/
structure Sending where
  source : Nat
  target : Nat
  phase : String
  message : Bytes
deriving DecidableEq, Repr

def Sending.isOn (s : Sending) (source target : Nat) : Bool :=
  s.source == source && s.target == target

/-- What becomes of the messages on each link: `none` if every one arrives once and unchanged, and
otherwise what arrives of message number `k`. -/
abbrev Carriage := (source target : Nat) → Option ((k : Nat) → Bytes → List Bytes)

/-- Every message arrives once and unchanged. -/
def Carriage.reliable : Carriage := fun _ _ => none

/-- The state of all links between a number of ends. -/
structure Mesh where
  parties : Nat
  /-- The number of messages that a link holds. -/
  capacity : Nat := 1024
  carriage : Carriage := Carriage.reliable
  gone : List Nat := []
  /-- The messages on the link from one end to another that have not been received, oldest first. -/
  queue : (source target : Nat) → List Bytes := fun _ _ => []
  /-- Everything that was handed to a link, newest first. -/
  sendings : List Sending := []
  /-- The processes that wait for a link. -/
  line : Line := []

namespace Mesh

/-- Two ends have links between them if they are two and both exist. -/
def Linked (m : Mesh) (a b : Nat) : Prop := a ≠ b ∧ a < m.parties ∧ b < m.parties

instance (m : Mesh) (a b : Nat) : Decidable (m.Linked a b) := by
  unfold Linked
  infer_instance

/-- The phases and messages handed to one link, in order. -/
def traffic (m : Mesh) (source target : Nat) : List (String × Bytes) :=
  ((m.sendings.filter (·.isOn source target)).map fun s => (s.phase, s.message)).reverse

def handed (m : Mesh) (source target : Nat) : Nat :=
  m.sendings.countP (·.isOn source target)

/-- What arrives of the next message on one link. -/
def arrivals (m : Mesh) (source target : Nat) (message : Bytes) : List Bytes :=
  match m.carriage source target with
  | some arrive => arrive (m.handed source target) message
  | none => [message]

def setQueue (m : Mesh) (source target : Nat) (messages : List Bytes) : Mesh :=
  { m with queue := fun a b => if a = source ∧ b = target then messages else m.queue a b }

/-- Takes a message to be sent and says how that went, or leaves the sender waiting where the link is
full. A message of which nothing arrives needs no link, so sending it always goes well. -/
def send (m : Mesh) (source target : Nat) (phase : String) (message : Bytes) :
    Option (Sent × Mesh) :=
  let noted := { m with sendings := ⟨source, target, phase, message⟩ :: m.sendings }
  let arriving := m.arrivals source target message
  if arriving = [] then some (.ok (), noted)
  else if ¬ m.Linked source target then some (.error (.noSuchParty target), noted)
  else if target ∈ m.gone then some (.error .closed, noted)
  else if m.capacity ≤ (m.queue source target).length then none
  else some (.ok (), noted.setQueue source target (m.queue source target ++ arriving))

/-- Gives the oldest message that waits at an end, or leaves the receiver waiting where none does. -/
def receive (m : Mesh) (target source : Nat) : Option (Received × Mesh) :=
  if ¬ m.Linked target source then some (.error (.noSuchParty source), m)
  else
    match m.queue source target with
    | message :: rest => some (.ok message, m.setQueue source target rest)
    | [] => if source ∈ m.gone then some (.error .closed, m) else none

/-- Lets a ticket have what its process did to the mesh, if it is the turn of that ticket. -/
def serve {β : Type} (m : Mesh) (t : Ticket) (answer : Option (β × Mesh)) : Option (β × Mesh) :=
  if m.line.serves t then answer.map fun (b, m) => (b, { m with line := m.line.leave t }) else none

def drop (m : Mesh) (party : Nat) : Mesh := { m with gone := party :: m.gone }

end Mesh

end ObliviousRouting
