import ObliviousRouting.Keystream
import ObliviousRouting.Message
import ObliviousRouting.Mixing

/-!
# Tossing a coin for a seed

Two parties agree on a seed that neither of them can choose. Each commits to a secret of its own, opens
it once the other one has committed too, and checks the other's opening; the seed is the XOR of both
secrets. A commitment also covers the number of the party that made it, so nobody can hand back the
commitment of the other one as its own.
-/

namespace ObliviousRouting

inductive TossError where
  | link (e : LinkError)
  /-- What this party opened is not what it had committed to. -/
  | notOpened (party : Nat)
deriving DecidableEq, Repr

def TossError.message : TossError → String
  | .link e => e.message
  | .notOpened party => s!"the commitment of party {party} could not be opened"

namespace CoinToss

/-- The commitment of a party to a secret: the digest of the secret and the low 16 bits of the party's
number, high byte first. -/
def commitment (secret : Word256) (party : Nat) : Word256 :=
  Blake3.digest (secret.bytes ++ (LittleEndian.encode 2 party).reverse)

def receiveCommitment {σ : Type} (other : Nat) (phase : String) : Role σ LinkError Word256 := do
  match ← Role.receiveList Codec.word256 other phase with
  | [commitment] => return commitment
  | l => Role.fail ⟨phase, .wrongLength 1 l.length⟩

def receiveSecret {σ : Type} (other : Nat) (phase : String) : Role σ LinkError Word256 := do
  let bytes ← Role.receiveList Codec.byte other phase
  match Word256.ofBytes? bytes with
  | some secret => return secret
  | none => Role.fail ⟨phase, .wrongLength 32 bytes.length⟩

/-- Agrees on a seed with another party. The own secret comes from the tape. -/
def toss (own other : Nat) (phase : String) : Role Tape TossError Seed := do
  let secret ← modifyGet Tape.secret
  Role.mapError .link (Role.sendList Codec.word256 other phase [commitment secret own])
  let theirs ← Role.mapError .link (receiveCommitment other phase)
  Role.mapError .link (Role.sendList Codec.byte other phase secret.bytes)
  let opened ← Role.mapError .link (receiveSecret other phase)
  if commitment opened other = theirs then return secret.xor opened
  else Role.fail (.notOpened other)

def tosses (own other : Nat) (phase : String) :
    (count : Nat) → Tape → Process (List (Outcome TossError Seed))
  | 0, _ => pure []
  | count + 1, tape => do
    let (result, tape) ← (toss own other phase).start tape
    match result with
    | .ok _ => return result :: (← tosses own other phase count tape)
    | .error _ => return [result]

end CoinToss

end ObliviousRouting
