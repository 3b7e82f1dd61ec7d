import ObliviousRouting.Process.Role
import ObliviousRouting.Wire.Codec

/-!
# Messages of a role

Roles send and receive plain bytes and counted lists. Every message belongs to a phase of the protocol,
and what goes wrong is reported with it.
-/

namespace ObliviousRouting

inductive LinkFailure where
  | notReceived (failure : ReceiveFailure)
  | notSent (failure : SendFailure)
  /-- The message is no list of the expected type. -/
  | malformed
  | wrongLength (expected actual : Nat)
deriving DecidableEq, Repr

structure LinkError where
  phase : String
  failure : LinkFailure
deriving DecidableEq, Repr

def ReceiveFailure.describe : ReceiveFailure → String
  | .noSuchParty party => s!"NoSuchParty({party})"
  | .closed => "Closed"
  | .timeout => "TimeoutElapsed"
  | .empty => "Empty"

def SendFailure.describe : SendFailure → String
  | .noSuchParty party => s!"NoSuchParty({party})"
  | .closed => "Closed(SendError \x7b .. \x7d)"
  | .full => "Full"

def LinkFailure.describe : LinkFailure → String
  | .notReceived failure => s!"RecvError(\"{failure.describe}\")"
  | .notSent failure => s!"SendError(\"{failure.describe}\")"
  | .malformed => "SerdeError(\"Io(Kind(UnexpectedEof))\")"
  | .wrongLength expected actual =>
    s!"InvalidLength \x7b expected: {expected}, actual: {actual} \x7d"

def LinkError.message (e : LinkError) : String :=
  s!"Channel error during '{e.phase}': {e.failure.describe}"

def Received.bytes (phase : String) (r : Received) : Except LinkError Bytes :=
  r.mapError fun failure => ⟨phase, .notReceived failure⟩

def Codec.read {α : Type} (c : Codec α) (phase : String) (message : Bytes) :
    Except LinkError (List α) :=
  match c.decodeList? message with
  | some l => .ok l
  | none => .error ⟨"receiving " ++ phase, .malformed⟩

namespace Role

variable {σ α : Type}

def sendBytes (target : Nat) (phase : String) (message : Bytes) : Role σ LinkError Unit :=
  ofProcess (.send target phase message fun r =>
    .done (r.mapError fun failure => ⟨phase, .notSent failure⟩))

def receiveBytes (source : Nat) (phase : String) : Role σ LinkError Bytes :=
  ofProcess (.receive source fun r => .done (Received.bytes phase r))

def sendList (c : Codec α) (target : Nat) (phase : String) (l : List α) : Role σ LinkError Unit :=
  sendBytes target phase (c.encodeList l)

def receiveList (c : Codec α) (source : Nat) (phase : String) : Role σ LinkError (List α) := do
  let message ← receiveBytes source phase
  ofExcept (c.read phase message)

/-- Waits for a list of a known length. -/
def receiveListOf (c : Codec α) (source : Nat) (phase : String) (length : Nat) :
    Role σ LinkError (List α) := do
  let l ← receiveList c source phase
  if l.length = length then return l
  else fail ⟨phase, .wrongLength length l.length⟩

end Role

end ObliviousRouting
