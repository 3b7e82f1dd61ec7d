import ObliviousRouting.Mesh.Basic

/-!
# How a mesh is wired

The links between some ends are laid one by one: two for each pair of ends, one in each direction. A link has
two halves, and each end keeps a table of the halves that it sends with and one of those that it receives with,
by the number of the other end. It has no half for itself, and none for a number that no end has. An end that is
gone has dropped all its halves: what has lost the half for receiving takes no message any more, and what has lost
the half for sending gives no other messages than those that are still on it.
-/

namespace ObliviousRouting

/-- The halves of links that one end holds, by the number of the other end. -/
structure Halves where
  senders : List (Option Nat)
  receivers : List (Option Nat)

/-- No half, for any of so many ends. -/
def Halves.none (parties : Nat) : Halves := ⟨.replicate parties .none, .replicate parties .none⟩

/-- Adds the half for sending to another end and the one for receiving from it. -/
def Halves.add (h : Halves) (other sender receiver : Nat) : Halves :=
  ⟨h.senders.set other (some sender), h.receivers.set other (some receiver)⟩

/-- Links, each of which has a number, and the ends that hold their halves. -/
structure Wiring where
  ends : List Halves
  /-- The number of links. -/
  links : Nat := 0
  /-- The number of messages that a link holds. -/
  capacity : Nat := 1024
  /-- The messages on a link, oldest first. -/
  queue : (link : Nat) → List Bytes := fun _ => []
  /-- The links of which the half for sending is dropped. -/
  unsent : List Nat := []
  /-- The links of which the half for receiving is dropped. -/
  unreceived : List Nat := []

namespace Wiring

/-- Lays a link from `a` to `b`, and one from `b` to `a`. -/
def connect (w : Wiring) (a b : Nat) : Wiring :=
  { w with
    ends := (w.ends.modify a (·.add b w.links (w.links + 1))).modify b (·.add a (w.links + 1) w.links)
    links := w.links + 2 }

/-- The wiring of so many ends. -/
def channels (parties : Nat) : Wiring :=
  (List.range parties).foldl
    (fun w a => (List.range' (a + 1) (parties - (a + 1))).foldl (fun w b => w.connect a b) w)
    { ends := .replicate parties (.none parties) }

/-- The link that is in a table of one end, at the number of another one. -/
def half? (w : Wiring) (table : Halves → List (Option Nat)) (place other : Nat) : Option Nat :=
  w.ends[place]?.bind fun halves => (table halves)[other]?.join

/-- The link on which an end sends to another one. -/
def sender? (w : Wiring) (place target : Nat) : Option Nat := w.half? Halves.senders place target

/-- The link on which an end receives from another one. -/
def receiver? (w : Wiring) (place source : Nat) : Option Nat := w.half? Halves.receivers place source

def setQueue (w : Wiring) (link : Nat) (messages : List Bytes) : Wiring :=
  { w with queue := fun k => if k = link then messages else w.queue k }

/-- Takes a message to be sent, or leaves the sender waiting where the link is full. -/
def send (w : Wiring) (place target : Nat) (message : Bytes) : Option (Sent × Wiring) :=
  match w.sender? place target with
  | none => some (.error (.noSuchParty target), w)
  | some k =>
    if k ∈ w.unreceived then some (.error .closed, w)
    else if w.capacity ≤ (w.queue k).length then none
    else some (.ok (), w.setQueue k (w.queue k ++ [message]))

/-- Gives the oldest message of a link, or leaves the receiver waiting where there is none. -/
def receive (w : Wiring) (place source : Nat) : Option (Received × Wiring) :=
  match w.receiver? place source with
  | none => some (.error (.noSuchParty source), w)
  | some k =>
    match w.queue k with
    | message :: rest => some (.ok message, w.setQueue k rest)
    | [] => if k ∈ w.unsent then some (.error .closed, w) else none

/-- An end drops all its halves. -/
def drop (w : Wiring) (place : Nat) : Wiring :=
  match w.ends[place]? with
  | none => w
  | some halves =>
    { w with
      unsent := halves.senders.filterMap id ++ w.unsent
      unreceived := halves.receivers.filterMap id ++ w.unreceived }

end Wiring

end ObliviousRouting
