import ObliviousRouting.Bytes.Basic

/-!
# Processes that exchange messages

A process is what one party of a protocol does, seen from its links: it ends with a result, hands a
message to a link and goes on with the answer of the link, waits for a message of one party, or waits
for whichever of two parties sends first. A process is a tree, so every run of it ends; how its links
answer is left to those who run it.
-/

namespace ObliviousRouting

inductive SendFailure where
  | noSuchParty (party : Nat)
  /-- The other end is gone. -/
  | closed
  | full
deriving DecidableEq, Repr

inductive ReceiveFailure where
  | noSuchParty (party : Nat)
  /-- The other end is gone, and all that it sent has been received. -/
  | closed
  | timeout
  | empty
deriving DecidableEq, Repr

abbrev Sent := Except SendFailure Unit

abbrev Received := Except ReceiveFailure Bytes

/-- What a party does on its links, ending with a result. -/
inductive Process (α : Type) where
  | done (result : α)
  /-- Hands a message to the link to a party. The phase is a label for reports and does not travel. -/
  | send (target : Nat) (phase : String) (message : Bytes) (next : Sent → Process α)
  | receive (source : Nat) (next : Received → Process α)
  | receiveEither (first second : Nat) (onFirst onSecond : Received → Process α)

namespace Process

variable {α β γ : Type}

/-- Goes on with `f` where `p` ends. -/
def bind (p : Process α) (f : α → Process β) : Process β :=
  match p with
  | done a => f a
  | send target phase message next => send target phase message fun r => (next r).bind f
  | receive source next => receive source fun r => (next r).bind f
  | receiveEither first second onFirst onSecond =>
    receiveEither first second (fun r => (onFirst r).bind f) (fun r => (onSecond r).bind f)

instance : Monad Process where
  pure := done
  bind := bind

@[simp] theorem pure_eq (a : α) : (pure a : Process α) = done a := rfl

@[simp] theorem done_bind (a : α) (f : α → Process β) : done a >>= f = f a := rfl

@[simp] theorem send_bind (target : Nat) (phase : String) (message : Bytes)
    (next : Sent → Process α) (f : α → Process β) :
    send target phase message next >>= f = send target phase message fun r => next r >>= f := rfl

@[simp] theorem receive_bind (source : Nat) (next : Received → Process α) (f : α → Process β) :
    receive source next >>= f = receive source fun r => next r >>= f := rfl

@[simp] theorem receiveEither_bind (first second : Nat) (onFirst onSecond : Received → Process α)
    (f : α → Process β) :
    receiveEither first second onFirst onSecond >>= f =
      receiveEither first second (fun r => onFirst r >>= f) (fun r => onSecond r >>= f) := rfl

theorem bind_done (p : Process α) : p >>= done = p := by
  induction p with
  | done a => rfl
  | send target phase message next ih => simp [ih]
  | receive source next ih => simp [ih]
  | receiveEither first second onFirst onSecond ih₁ ih₂ => simp [ih₁, ih₂]

theorem bind_assoc (p : Process α) (f : α → Process β) (g : β → Process γ) :
    p >>= f >>= g = p >>= fun a => f a >>= g := by
  induction p with
  | done a => rfl
  | send target phase message next ih => simp [ih]
  | receive source next ih => simp [ih]
  | receiveEither first second onFirst onSecond ih₁ ih₂ => simp [ih₁, ih₂]

instance : LawfulMonad Process :=
  LawfulMonad.mk' Process
    (fun p => bind_done p)
    (fun _ _ => rfl)
    bind_assoc

/-- Waits for a message of `first` and for one of `second`, in whichever order they come. The first
answer that is no success ends the wait, so nothing more is received after it. -/
def receiveBoth {ε : Type} (first second : Nat) (readFirst : Received → Except ε α)
    (readSecond : Received → Except ε β) : Process (Except ε (α × β)) :=
  receiveEither first second
    (fun r => match readFirst r with
      | .error e => done (.error e)
      | .ok a => receive second fun r => done ((readSecond r).map (a, ·)))
    (fun r => match readSecond r with
      | .error e => done (.error e)
      | .ok b => receive first fun r => done ((readFirst r).map (·, b)))

end Process

end ObliviousRouting
