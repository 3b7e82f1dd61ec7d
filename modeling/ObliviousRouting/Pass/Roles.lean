import ObliviousRouting.BatchSize.Basic
import ObliviousRouting.Keystream
import ObliviousRouting.Message
import ObliviousRouting.Pass.Target
import ObliviousRouting.RowBuffer.Basic

/-!
# The oblivious pass

Moves the rows of a sender to the targets that a router chose, so that router and collector end with
shares of them. The sender shuffles and masks its rows and streams them to the collector. The router
shuffles its targets alike, writes the masks into the rows they name, and streams the targets to the
collector, which writes each masked row where its target says. The masked rows hide the contents from
the collector, and the shuffle hides which row went where.
-/

namespace ObliviousRouting

/-! ### Shuffling and masking

What hides rows from the party that collects them: a shuffle, given by a swap partner for each position, and
a mask for each shuffled row. The sender and the router of a pass derive both from a seed that they share, so
they apply the same shuffle and know the same masks. A shuffle swaps position `i` with a position drawn from
`i` up to the end, for each `i` in turn. -/

/-- Swap partners and masks. -/
structure Blinding where
  /-- For each position of a list of that many rows, the position that it is swapped with. -/
  partners : (rows : Nat) → List Nat
  /-- For each of that many shuffled rows, a mask of the given width. -/
  masks : (rows stride : Nat) → List Bytes

/-- The blinding that a seed stands for. Every mask starts at a word of its own. -/
def Blinding.ofSeed (seed : Seed) : Blinding where
  partners rows := (Keystream.ofSeed seed .shuffle).draws rows rows 0 0
  masks rows stride := (List.range rows).map fun k =>
    (Keystream.ofSeed seed .mask).bytes (k * wordsFor stride) stride

def exchange {α : Type} (xs : Array α) (i j : Nat) : Checked (Array α) :=
  if places : i < xs.size ∧ j < xs.size then .ok (xs.swap i j places.1 places.2)
  else .error .outOfRange

/-- Exchanges the elements at `i`, `i + 1`, … with those at the given places, in turn. -/
def exchangeAll {α : Type} (xs : Array α) (i : Nat) : (partners : List Nat) → Checked (Array α)
  | [] => .ok xs
  | j :: partners => do
    let xs ← exchange xs i j
    exchangeAll xs (i + 1) partners

/-! ### The roles -/

inductive PassError where
  | link (e : LinkError)
  /-- A batch of rows does not fit its batch of targets. -/
  | shapeMismatch (targets bytes stride : Nat)
  | destinationOutOfRange (destination rows : Nat)
  /-- That many rows have no targets. -/
  | tooManyRows (rows : Nat)
deriving DecidableEq, Repr

def PassError.message : PassError → String
  | .link e => e.message
  | .shapeMismatch targets bytes stride =>
    s!"received {targets} permutation entries but {bytes} bytes of rows with stride {stride}"
  | .destinationOutOfRange destination rows =>
    s!"destination {destination} is out of range for {rows} destination rows"
  | .tooManyRows rows => s!"{rows} rows cannot be addressed by 32-bit row indices"

namespace Pass

variable {σ : Type}

def checkRows (rows : Nat) : Except PassError Unit :=
  if rows < Target.rowLimit then .ok () else .error (.tooManyRows rows)

/-- Checks that targets name rows below `rows` only. -/
def checkTargets (targets : List Target) (rows : Nat) : Except PassError Unit :=
  match (targets.filterMap Target.row?).find? fun d => rows ≤ d with
  | some d => .error (.destinationOutOfRange d rows)
  | none => .ok ()

/-- Writes a share for each target that names a row. -/
def place (mode : Mode) (b : RowBuffer) : List (Target × Bytes) → Checked RowBuffer
  | [] => .ok b
  | (target, share) :: rest => do
    let b ← match target.row? with
      | some d => b.write mode d share
      | none => pure b
    place mode b rest

/-- Sends the rows of `data`, shuffled and masked, to the collector. -/
def send (blinding : Blinding) (collector : Nat) (data : RowBuffer) (size : BatchSize)
    (phase : String) : Role σ PassError Unit := do
  let count := data.size
  Role.ofExcept (checkRows count)
  let partners := blinding.partners count
  let masks := blinding.masks count data.stride
  let _ ← Role.iterate (fun k rows => do
    let (first, last) ← Role.ofChecked (size.range count k)
    let rows ← Role.ofChecked (exchangeAll rows first (BatchSize.part partners first last))
    let message := Bytes.xor (BatchSize.part rows.toList first last).flatten
      (BatchSize.part masks first last).flatten
    Role.mapError .link (Role.sendBytes collector phase message)
    return rows) (size.count count) 0 data.toList.toArray

/-- Routes the sender's rows to the given targets. The state is the destination buffer, which gets the
masks of all routed rows as this party's share. -/
def route (blinding : Blinding) (collector : Nat) (targets : List Target) (mode : Mode)
    (size : BatchSize) (phase : String) : Role RowBuffer PassError Unit := do
  let rows := targets.length
  Role.ofExcept (checkRows rows)
  let dest ← get
  Role.ofExcept (checkTargets targets dest.size)
  unless Target.Distinct targets do throw (.fault .repeatedTarget)
  let _ ← Role.ofChecked (Size.buffer dest.stride)
  let partners := blinding.partners rows
  let masks := blinding.masks rows dest.stride
  let _ ← Role.iterate (fun k targets => do
    let (first, last) ← Role.ofChecked (size.range rows k)
    let targets ← Role.ofChecked (exchangeAll targets first (BatchSize.part partners first last))
    let batch := BatchSize.part targets.toList first last
    let dest ← Role.ofChecked (place mode (← get) (batch.zip (BatchSize.part masks first last)))
    set dest
    Role.mapError .link (Role.sendList Target.codec collector phase batch)
    return targets) (size.count rows) 0 targets.toArray

/-- Collects `rows` masked rows. The state is the destination buffer, in which each row is written where
its target says. -/
def collect (sender router : Nat) (rows : Nat) (mode : Mode) (size : BatchSize) (phase : String) :
    Role RowBuffer PassError Unit := do
  Role.ofExcept (checkRows rows)
  Role.iterate (fun k _ => do
    let (first, last) ← Role.ofChecked (size.range rows k)
    let (bytes, targets) ← Role.mapError .link (Role.ofProcess
      (Process.receiveBoth sender router (Received.bytes phase)
        fun r => Received.bytes phase r >>= Target.codec.read phase))
    let dest ← get
    let mismatch := .shapeMismatch targets.length bytes.length dest.stride
    if dest.stride = 0 ∨ targets.length ≠ last - first then Role.fail mismatch
    let expected ← Role.ofChecked (Size.mul targets.length dest.stride)
    if expected ≠ bytes.length then Role.fail mismatch
    Role.ofExcept (checkTargets targets dest.size)
    let dest ← Role.ofChecked (place mode dest (targets.zip (bytes.chunks dest.stride)))
    set dest) (size.count rows) 0 ()

end Pass

end ObliviousRouting
