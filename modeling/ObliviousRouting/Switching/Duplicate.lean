import ObliviousRouting.Switching.State

/-!
# Duplicating

The second stage of a run turns every compact row whose edge repeats the source of the edge before it
into a copy of the row before. Planner and helper share the compact rows by XOR, and only the planner
knows which of them are to be copies. It learns one row of each pair that the helper offers: the second
one for a copy, the first one elsewhere. The helper goes on with a fresh share. With the fresh share of
the row before mixed into the second row of a pair, copies of copies come out right too.
-/

namespace ObliviousRouting

namespace RowBuffer

/-- XORs the bytes of a buffer into another one. -/
def xor (a b : RowBuffer) : RowBuffer where
  data := (a.bytes.xor b.bytes).toArray
  stride := a.stride
  stride_dvd := by
    rw [List.size_toArray, Bytes.length_xor, bytes, Array.length_toList]
    exact a.stride_dvd

/-- XORs rows of another buffer, from its row `j` on, into `count` rows from row `i` on. -/
def xorRows (other : RowBuffer) (i j : Nat) : (count : Nat) → RowBuffer → Checked RowBuffer
  | 0, b => .ok b
  | count + 1, b => do
    let row ← other.row j
    let b ← b.xorRow i row
    xorRows other (i + 1) (j + 1) count b

/-- Makes row `i` a copy of the row before. -/
def repeatRow (b : RowBuffer) (i : Nat) : Checked RowBuffer := do
  let before ← Size.sub i 1
  b.copyRow before i

/-- The rows moved down by one, after a row of zeros; the last one is dropped. -/
def moveDown (b : RowBuffer) : RowBuffer where
  data := (Array.replicate b.stride 0 ++ b.data).extract 0 b.data.size
  stride := b.stride
  stride_dvd := by
    rw [Array.size_extract, Array.size_append, Nat.min_eq_left (Nat.le_add_left ..)]
    exact b.stride_dvd

end RowBuffer

namespace Switching.Duplicate

variable {σ : Type}

/-- The pairs offered for the share `own`, which is to be replaced by the share `fresh`. -/
def pairs (own fresh : RowBuffer) : RowBuffer × RowBuffer :=
  (own.xor fresh, fresh.xor fresh.moveDown)

/-- Makes the pairs row by row. Nothing is mixed into the second row of the first pair. -/
def makePairs (own fresh : RowBuffer) : Checked (RowBuffer × RowBuffer) := do
  let second ← fresh.xorRows 1 0 (own.size - 1) fresh
  let first ← fresh.xorRows 0 0 own.size own
  return (first, second)

/-- Makes copies among the rows from number `i` on, and mixes in what was learned for each row. -/
def resolve (learned : RowBuffer) (i : Nat) : (copies : List Bool) → RowBuffer → Checked RowBuffer
  | [], b => .ok b
  | copy :: copies, b => do
    let b ← if copy then b.repeatRow i else pure b
    let row ← learned.row i
    let b ← b.xorRow i row
    resolve learned (i + 1) copies b

/-- Learns what makes the copies, and gives the planner's new share. -/
def planner (x : Expansion) (parties : Parties) (compact : RowBuffer) (size : BatchSize) :
    Role PlannerState SwitchError RowBuffer := do
  let seed ← PlannerState.onTape (toss parties .planner .helper "duplicate flips")
  let ⟨_, plan, _⟩ ← get
  let copies ← Role.ofChecked (plan.repeatFlags plan.selectRows)
  let learned ← Role.mapError .reveal (Reveal.choose (x.flips seed) parties.helper parties.owner
    copies compact.stride size "duplicate")
  Role.ofChecked (resolve learned 0 copies compact)

def owner (x : Expansion) (parties : Parties) (shape : Shape) : Role OwnerState SwitchError Unit := do
  let seed ← OwnerState.onTape (toss parties .owner .helper "duplicate pads")
  Role.mapError .reveal (Reveal.serve (x.pads seed) parties.planner shape.selectRows shape.stride
    shape.size "duplicate")

/-- Offers the pairs, and gives the helper's new share, which is fresh. -/
def helper (x : Expansion) (parties : Parties) (compact : RowBuffer) (size : BatchSize) :
    Role Tape SwitchError RowBuffer := do
  let flips ← toss parties .helper .planner "duplicate flips"
  let pads ← toss parties .helper .owner "duplicate pads"
  let bytes ← modifyGet fun tape => x.fresh tape compact.data.size
  let fresh ← Role.ofChecked (compact.setRows 0 compact.size bytes)
  let (first, second) ← Role.ofChecked (makePairs compact fresh)
  Role.mapError .reveal
    (Reveal.offer (x.flips flips) (x.pads pads) parties.planner first second size "duplicate")
  return fresh

end Switching.Duplicate

end ObliviousRouting
