import ObliviousRouting.Wire.Codec

/-!
# Targets of routed rows

A target says where a row goes: to a destination row, or nowhere. It is a 32-bit word, and the greatest
word stands for a row that is discarded, so lists of targets travel as lists of words.
-/

namespace ObliviousRouting

/-- The destination of a row. -/
structure Target where
  word : UInt32
deriving DecidableEq, Repr

namespace Target

/-- One more than the greatest destination row. -/
def rowLimit : Nat := 0xFFFFFFFF

/-- No destination: the row is discarded. -/
def discard : Target := ⟨UInt32.ofNat rowLimit⟩

def ofRow (i : Nat) : Target := ⟨UInt32.ofNat i⟩

/-- The destination row, unless the row is discarded. -/
def row? (t : Target) : Option Nat :=
  if t = discard then none else some t.word.toNat

/-- No two targets of a list name the same row. -/
def Distinct (targets : List Target) : Prop := (targets.filterMap row?).Nodup

instance (targets : List Target) : Decidable (Distinct targets) := by
  unfold Distinct
  infer_instance

/-- Targets as words of 32 bits, little endian. -/
def codec : Codec Target where
  width := Codec.word32.width
  encode t := Codec.word32.encode t.word
  decode bytes := (Codec.word32.decode bytes).map Target.mk
  width_pos := Codec.word32.width_pos
  length_encode t := Codec.word32.length_encode t.word
  decode_encode t := by rw [Codec.word32.decode_encode]; rfl
  exists_decode h := by
    obtain ⟨w, hw⟩ := Codec.word32.exists_decode h
    exact ⟨⟨w⟩, by rw [hw]; rfl⟩

end Target

end ObliviousRouting
