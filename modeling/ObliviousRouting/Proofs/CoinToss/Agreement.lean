import ObliviousRouting.Proofs.Network.Phases
import ObliviousRouting.Proofs.Wire.Codec

/-!
# Agreeing on a seed

When two honest parties toss a coin, each of them opens what it has committed to, so both accept, and
the XOR of their secrets does not depend on whose secret comes first.
-/

namespace ObliviousRouting

theorem Word256.xor_comm (a b : Word256) : a.xor b = b.xor a := by
  apply Word256.ext
  exact Bytes.xor_comm (a.length_bytes.trans b.length_bytes.symm)

theorem Word256.ofBytes?_bytes (a : Word256) : ofBytes? a.bytes = some a := by
  rw [ofBytes?, dif_pos a.length_bytes]

namespace CoinToss

open Role

def course (own other : Nat) (secret opened : Word256) (phase : String) : Course :=
  [.send other phase (Codec.word256.encodeList [commitment secret own]),
    .receive other (Codec.word256.encodeList [commitment opened other])] ++
  [.send other phase (Codec.byte.encodeList secret.bytes),
    .receive other (Codec.byte.encodeList opened.bytes)]

def timetable (a b c : Nat) (secret secret' : Word256) (phase : String) : Timetable :=
  .trio a b c (course a b secret secret' phase) (course b a secret' secret phase) []

theorem phase_timetable {S : List Nat} {a b c : Nat} (h : Timetable.Apart S a b c) {capacity : Nat}
    (hcap : 2 ≤ capacity) (secret secret' : Word256) (phase : String) :
    (timetable a b c secret secret' phase).Phase capacity S := by
  have hjoin := Timetable.join_map_trio (a := a) (b := b) (c := c)
    [(Codec.word256.encodeList [commitment secret a], Codec.word256.encodeList [commitment secret' b]),
      (Codec.byte.encodeList secret.bytes, Codec.byte.encodeList secret'.bytes)]
    (fun m => [.send b phase m.1, .receive b m.2]) (fun m => [.send a phase m.2, .receive a m.1])
    (fun _ => [])
  change Timetable.join _ = timetable a b c secret secret' phase at hjoin
  rw [← hjoin]
  apply Timetable.Phase.join
  intro A hA
  obtain ⟨m, -, rfl⟩ := List.mem_map.1 hA
  exact Timetable.phase_exchange h hcap ..

theorem performs_receiveCommitment {σ : Type} (other : Nat) (commitment : Word256) (phase : String)
    (s : σ) :
    Performs (receiveCommitment other phase) s
      [.receive other (Codec.word256.encodeList [commitment])] commitment s := by
  have hread := Codec.word256.read_encodeList (l := [commitment])
    (by rw [List.length_singleton]; decide) phase
  exact Performs.bind_end (Performs.receiveList hread other s) (.pure commitment s)

theorem performs_receiveSecret {σ : Type} (other : Nat) (secret : Word256) (phase : String) (s : σ) :
    Performs (receiveSecret other phase) s [.receive other (Codec.byte.encodeList secret.bytes)]
      secret s := by
  have hread := Codec.byte.read_encodeList (l := secret.bytes)
    (by rw [secret.length_bytes]; decide) phase
  apply Performs.bind_end (Performs.receiveList hread other s)
  simp only [secret.ofBytes?_bytes]
  exact .pure secret s

theorem performs_toss (own other : Nat) (opened : Word256) (phase : String) (tape : Tape) :
    Performs (toss own other phase) tape (course own other tape.secret.1 opened phase)
      (tape.secret.1.xor opened) tape.secret.2 := by
  simp only [toss]
  refine Performs.bind_nil (Performs.modifyGet Tape.secret tape) ?_
  refine Performs.bind (c := [_]) (Performs.mapError TossError.link (Performs.sendList ..)) ?_
  refine Performs.bind (c := [_])
    (Performs.mapError TossError.link (performs_receiveCommitment ..)) ?_
  refine Performs.bind (c := [_]) (Performs.mapError TossError.link (Performs.sendList ..)) ?_
  refine Performs.bind_end (Performs.mapError TossError.link (performs_receiveSecret ..)) ?_
  rw [if_pos rfl]
  exact .pure _ _

end CoinToss

end ObliviousRouting
