import ObliviousRouting.Fault

/-!
# Batches

Rows travel in batches. The batch size is a parameter on which all parties of a run have to agree,
since it decides where the messages end. Batch `k` starts at row `k * step`; its end is computed as a
checked sum before it is cut off at the number of rows.
-/

namespace ObliviousRouting

/-- The number of rows of a batch, as it was configured. -/
structure BatchSize where
  /-- The configured number; zero is treated as one. -/
  rows : Nat
deriving DecidableEq, Repr

namespace BatchSize

def standard : BatchSize := ⟨16384⟩

instance : Inhabited BatchSize := ⟨standard⟩

def atLeastOne (rows : Nat) : BatchSize := ⟨max rows 1⟩

/-- The number of rows of a full batch. -/
def step (b : BatchSize) : Nat := max b.rows 1

/-- The number of batches that `rows` rows make. -/
def count (b : BatchSize) (rows : Nat) : Nat := (rows + b.step - 1) / b.step

/-- The first row of batch `k` of `rows` rows, and the first row after it. -/
def range (b : BatchSize) (rows k : Nat) : Checked (Nat × Nat) := do
  let stop ← Size.add (k * b.step) b.step
  return (k * b.step, min stop rows)

def ranges (b : BatchSize) (rows : Nat) : Checked (List (Nat × Nat)) :=
  (List.range (b.count rows)).mapM (b.range rows)

/-- The part of a list that belongs to the rows from `first` up to `last`, the latter excluded. -/
def part {α : Type} (l : List α) (first last : Nat) : List α :=
  (l.drop first).take (last - first)

theorem step_pos (b : BatchSize) : 0 < b.step := by
  simp only [step]
  omega

end BatchSize

end ObliviousRouting
