import ObliviousRouting.Process.Basic

/-!
# Roles

A role is a process that works on a state of its own and may stop early: with an error that it
declares, or with a fault. The state survives a stop, so that what a role has written stays written.
A role that works on one buffer can be run inside a role that works on more, or on a buffer that is
private to it.
-/

namespace ObliviousRouting

/-- A process with a state of type `σ` that ends with a value of type `α` or stops early. -/
abbrev Role (σ ε α : Type) := ExceptT (Stop ε) (StateT σ Process) α

namespace Role

variable {σ τ ε δ α β : Type}

/-- The process that a role is from a given state on. -/
def start (x : Role σ ε α) (s : σ) : Process (Outcome ε α × σ) :=
  StateT.run (ExceptT.run x) s

def ofStart (f : σ → Process (Outcome ε α × σ)) : Role σ ε α :=
  ExceptT.mk f

/-- Stops with an error. -/
def fail (e : ε) : Role σ ε α := throw (.error e)

/-- Goes on with the value of a computation, or stops with its error. -/
def ofExcept (x : Except ε α) : Role σ ε α :=
  match x with
  | .ok a => pure a
  | .error e => throw (.error e)

def ofChecked (x : Checked α) : Role σ ε α :=
  match x with
  | .ok a => pure a
  | .error f => throw (.fault f)

def ofOutcome (x : Outcome ε α) : Role σ ε α :=
  match x with
  | .ok a => pure a
  | .error stop => throw stop

/-- Goes on with the result of a process that does not touch the state. -/
def ofProcess (p : Process (Except ε α)) : Role σ ε α :=
  ofStart fun s => p >>= fun r => pure (r.mapError .error, s)

def mapError (f : ε → δ) (x : Role σ ε α) : Role σ δ α :=
  ofStart fun s => x.start s >>= fun (r, s) =>
    pure (r.mapError (Stop.map f), s)

/-- Runs a role on a part of the state. -/
def within (part : σ → τ) (replace : τ → σ → σ) (x : Role τ ε α) : Role σ ε α :=
  ofStart fun s => x.start (part s) >>= fun (r, t) => pure (r, replace t s)

/-- Runs a role on a state of its own and gives what is left of that state. -/
def privately (x : Role τ ε α) (t : τ) : Role σ ε (α × τ) :=
  ofStart fun s => x.start t >>= fun (r, t) => pure (r.map (·, t), s)

/-- Runs `body` for the numbers `k`, `k + 1`, … in turn, `count` of them, handing a value on. -/
def iterate (body : Nat → β → Role σ ε β) : (count k : Nat) → β → Role σ ε β
  | 0, _, b => pure b
  | count + 1, k, b => body k b >>= iterate body count (k + 1)

end Role

end ObliviousRouting
