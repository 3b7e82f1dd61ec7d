/-!
# Lines

Several processes can share an end of a mesh. Then each link of that end serves them in the order in
which they came to wait for it: the first in line gets the next message, or the next room for one, and
whoever comes back for more goes to the end of the line.
-/

namespace ObliviousRouting

/-- What a process waits for at its end of a mesh. -/
inductive Need where
  | room (target : Nat)
  | message (source : Nat)
deriving DecidableEq, Repr

/-- A place in a line. -/
structure Ticket where
  waiter : Nat
  /-- The end at which it waits. -/
  place : Nat
  need : Need
deriving DecidableEq, Repr

abbrev Line := List Ticket

namespace Line

/-- Whether nobody else has come earlier for what a ticket is for. -/
def serves (line : Line) (t : Ticket) : Bool :=
  match line.find? fun u => u.place = t.place ∧ u.need = t.need with
  | some u => u.waiter = t.waiter
  | none => true

/-- The line after a ticket has been served, whether it was there or not. -/
def leave (line : Line) (t : Ticket) : Line := line.erase t

/-- The line after a process has come to wait for all the given needs. It keeps its tickets for these,
and gets new ones at the end for those it has no ticket for. -/
def settle (line : Line) (waiter place : Nat) (needs : List Need) : Line :=
  let tickets := needs.map fun need => ⟨waiter, place, need⟩
  let kept := line.filter fun t => t.waiter ≠ waiter ∨ t ∈ tickets
  kept ++ kept.foldl List.erase tickets

/-- The line after all that waited for a message have given up. -/
def expire (line : Line) : Line :=
  line.filter fun t => match t.need with
    | .room _ => true
    | .message _ => false

/-- A process that shares its end with no other one is always served. -/
theorem serves_of_alone {line : Line} {t : Ticket}
    (h : ∀ u ∈ line, u.place = t.place → u.waiter = t.waiter) : line.serves t = true := by
  unfold serves
  split
  · rename_i u found
    have place := List.find?_some found
    simp only [decide_eq_true_eq] at place
    simpa using h u (List.mem_of_find?_eq_some found) place.1
  · rfl

end Line

end ObliviousRouting
