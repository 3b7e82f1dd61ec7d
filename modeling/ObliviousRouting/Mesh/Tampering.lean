import ObliviousRouting.Mesh.Basic

/-!
# Tampering with messages

A `Tampering` names one message of one link and says how it is changed on its way: replaced, cut off,
altered in one byte and extended, in this order. It may also say how often the message is delivered.
Where several of them name the same message, each one changes what the one before it has left, and the
last one that says how often the message is delivered decides.
-/

namespace ObliviousRouting

/-- A change of one message. -/
structure Tampering where
  source : Nat
  target : Nat
  /-- The number of the message on its link. -/
  index : Nat
  /-- What the message is replaced by. -/
  replacement : Option Bytes := none
  /-- The greatest length that is left of the message. -/
  keep : Option Nat := none
  /-- A position, and the byte XORed into it. -/
  flip : Option (Nat × UInt8) := none
  suffix : Bytes := []
  /-- How often the message is delivered, where this is to be changed. -/
  copies : Option Nat := none
deriving Repr

namespace Tampering

def alter (t : Tampering) (message : Bytes) : Bytes :=
  let message := t.replacement.getD message
  let message := match t.keep with
    | some length => message.take length
    | none => message
  let message := match t.flip with
    | some (position, byte) => message.modify position (· ^^^ byte)
    | none => message
  message ++ t.suffix

def deliver (changes : List Tampering) (message : Bytes) : List Bytes :=
  List.replicate ((changes.filterMap copies).getLast?.getD 1)
    (changes.foldl (fun message t => t.alter message) message)

/-- The carriage of a mesh on which some messages are tampered with. -/
def carriage (changes : List Tampering) : Carriage := fun source target =>
  let onLink := changes.filter fun t => t.source = source ∧ t.target = target
  if onLink.isEmpty then none else some fun k => deliver (onLink.filter (·.index = k))

end Tampering

end ObliviousRouting
