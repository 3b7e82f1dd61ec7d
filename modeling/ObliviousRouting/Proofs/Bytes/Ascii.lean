import Mathlib.Algebra.Group.Nat.Defs
import Mathlib.Tactic.SplitIfs
import ObliviousRouting.Proofs.Bytes.Text

/-!
# Texts that come from one string of bytes only

Bytes that are no text are read as something all the same, so different strings of bytes may be read
alike. But whatever is not a plain ASCII byte is read as a character beyond ASCII: what has begun with a
greater byte ends as a character of at least two bytes, or as the replacement character. So a text of
ASCII characters is read from its own bytes and from no others.
-/

namespace ObliviousRouting.Text

namespace Unfinished

/-- The least code point of a character that begins like this. -/
def least (p : Unfinished) : Nat := (64 * p.bits + p.low.toNat % 64) * 64 ^ (p.owed - 1)

/-- One more than the greatest code point of a character that begins like this. -/
def limit (p : Unfinished) : Nat := (64 * p.bits + p.high.toNat % 64 + 1) * 64 ^ (p.owed - 1)

/-- Whatever completes the character, its code point is beyond ASCII and no surrogate. -/
structure Sound (p : Unfinished) : Prop where
  owed_pos : 1 ≤ p.owed
  low_le : 0x80 ≤ p.low.toNat
  high_le : p.high.toNat ≤ 0xBF
  least_le : 0x80 ≤ p.least
  valid : p.limit ≤ 0xD800 ∨ 0xE000 ≤ p.least ∧ p.limit ≤ 0x110000

theorem least_of_more (owed bits : Nat) : least ⟨owed, 0x80, 0xBF, bits⟩ = 64 * bits * 64 ^ (owed - 1) := by
  rw [least, show (0x80 : UInt8).toNat % 64 = 0 from rfl, Nat.add_zero]

theorem limit_of_more (owed bits : Nat) :
    limit ⟨owed, 0x80, 0xBF, bits⟩ = (64 * bits + 64) * 64 ^ (owed - 1) := by
  rw [limit, show (0xBF : UInt8).toNat % 64 = 63 from rfl]

end Unfinished

theorem toNat_ofNat_of_valid {n : Nat} (h : n < 0xD800 ∨ 0xE000 ≤ n ∧ n < 0x110000) :
    (Char.ofNat n).toNat = n := by
  have hvalid : n.isValidChar := by
    rcases h with h | h
    · exact .inl h
    · exact .inr ⟨by omega, h.2⟩
  rw [Char.ofNat, dif_pos hvalid]
  rfl

/-- A first byte beyond ASCII is replaced, or it begins a character beyond ASCII. -/
theorem start_of_not_ascii {b : UInt8} (h : 0x80 ≤ b.toNat) :
    start b = ([replacement], none) ∨ ∃ p, p.Sound ∧ start b = ([], some p) := by
  simp only [start, UInt8.lt_iff_toNat_lt, UInt8.le_iff_toNat_le, ← UInt8.toNat_inj, UInt8.reduceToNat]
  rw [if_neg (by omega)]
  split_ifs
  all_goals first
    | exact .inl rfl
    | refine .inr ⟨_, ⟨?_, ?_, ?_, ?_, ?_⟩, rfl⟩ <;> simp [Unfinished.least, Unfinished.limit] <;> omega

/-- A byte of a character that is not its last one leaves fewer code points, all of them beyond ASCII. -/
theorem Unfinished.Sound.more {p : Unfinished} (hp : p.Sound) {x : Nat} (hlow : p.low.toNat % 64 ≤ x)
    (hhigh : x ≤ p.high.toNat % 64) (howed : 1 < p.owed) :
    Unfinished.Sound ⟨p.owed - 1, 0x80, 0xBF, 64 * p.bits + x⟩ := by
  have hpow : 64 ^ (p.owed - 1) = 64 * 64 ^ (p.owed - 1 - 1) := by
    rw [← Nat.pow_succ', Nat.succ_eq_add_one, Nat.sub_add_cancel (by omega)]
  have hleast : p.least ≤ Unfinished.least ⟨p.owed - 1, 0x80, 0xBF, 64 * p.bits + x⟩ := by
    rw [least, least_of_more, Nat.mul_comm 64 (64 * p.bits + x), Nat.mul_assoc, ← hpow]
    exact Nat.mul_le_mul_right _ (Nat.add_le_add_left hlow _)
  have hlimit : Unfinished.limit ⟨p.owed - 1, 0x80, 0xBF, 64 * p.bits + x⟩ ≤ p.limit := by
    rw [limit_of_more, limit, hpow, ← Nat.mul_assoc]
    apply Nat.mul_le_mul_right
    omega
  constructor
  · exact Nat.le_sub_one_of_lt howed
  · exact Nat.le_refl 0x80
  · exact Nat.le_refl 0xBF
  · exact Nat.le_trans hp.least_le hleast
  · exact hp.valid.imp (Nat.le_trans hlimit) fun h =>
      ⟨Nat.le_trans h.1 hleast, Nat.le_trans hlimit h.2⟩

/-- A byte that belongs to a character ends it, or leaves less of it to come. -/
theorem Unfinished.Sound.step_within {p : Unfinished} (hp : p.Sound) {b : UInt8}
    (hlow : p.low.toNat ≤ b.toNat) (hhigh : b.toNat ≤ p.high.toNat) :
    (∃ c : Char, 0x80 ≤ c.toNat ∧ step (some p) b = ([c], none)) ∨
      ∃ q : Unfinished, q.Sound ∧ step (some p) b = ([], some q) := by
  have hl := hp.low_le
  have hh := hp.high_le
  rw [Text.step_within hlow hhigh]
  split
  · next howed =>
    have hleast := hp.least_le
    have hvalid := hp.valid
    rw [least, Nat.le_antisymm howed hp.owed_pos] at hleast hvalid
    rw [limit, Nat.le_antisymm howed hp.owed_pos] at hvalid
    refine .inl ⟨_, ?_, rfl⟩
    rw [toNat_ofNat_of_valid] <;> omega
  · next howed => exact .inr ⟨_, hp.more (by omega) (by omega) (Nat.lt_of_not_le howed), rfl⟩

/-- Whatever comes after the beginning of a character, something beyond ASCII is read. -/
theorem exists_not_ascii {p : Unfinished} (hp : p.Sound) (bytes : Bytes) :
    ∃ c ∈ decodeFrom (some p) bytes, 0x80 ≤ c.toNat := by
  have hreplacement : 0x80 ≤ replacement.toNat := by decide
  induction bytes generalizing p with
  | nil => exact ⟨replacement, List.mem_singleton_self _, hreplacement⟩
  | cons b bytes ih =>
    rw [decodeFrom_cons]
    by_cases hwithin : p.low.toNat ≤ b.toNat ∧ b.toNat ≤ p.high.toNat
    · rcases hp.step_within hwithin.1 hwithin.2 with ⟨c, hc, hstep⟩ | ⟨q, hq, hstep⟩
      · rw [hstep]
        exact ⟨c, List.mem_cons_self, hc⟩
      · rw [hstep]
        exact ih hq
    · refine ⟨replacement, List.mem_append_left _ ?_, hreplacement⟩
      rw [step, if_neg (by rwa [UInt8.le_iff_toNat_le, UInt8.le_iff_toNat_le])]
      exact List.mem_cons_self

/-- No character is beyond ASCII. -/
def Ascii (l : List Char) : Prop := ∀ c ∈ l, c.toNat < 0x80

instance (l : List Char) : Decidable (Ascii l) := List.decidableBAll (fun c : Char => c.toNat < 0x80) l

@[simp] theorem ascii_append {l l' : List Char} : Ascii (l ++ l') ↔ Ascii l ∧ Ascii l' :=
  List.forall_mem_append

@[simp] theorem ascii_cons {c : Char} {l : List Char} : Ascii (c :: l) ↔ c.toNat < 0x80 ∧ Ascii l :=
  List.forall_mem_cons

theorem flatMap_decodeFrom {bytes : Bytes} (h : Ascii (decodeFrom none bytes)) :
    (decodeFrom none bytes).flatMap String.utf8EncodeChar = bytes := by
  induction bytes with
  | nil => rfl
  | cons b bytes ih =>
    rw [decodeFrom_cons, step] at h ⊢
    rcases Nat.lt_or_ge b.toNat 0x80 with hascii | hbeyond
    · have hchar : (Char.ofNat b.toNat).toNat = b.toNat := toNat_ofNat_of_valid (.inl (by omega))
      have hencode : String.utf8EncodeChar (Char.ofNat b.toNat) = [b] := by
        have hval : (Char.ofNat b.toNat).val.toNat = b.toNat := hchar
        rw [String.utf8EncodeChar, hval, if_pos (by omega), UInt8.ofNat_toNat]
      rw [start_of_ascii hascii] at h ⊢
      rw [List.singleton_append, ascii_cons] at h
      rw [List.singleton_append, List.flatMap_cons, ih h.2, hencode, List.singleton_append]
    · exfalso
      rcases start_of_not_ascii hbeyond with hstart | ⟨p, hp, hstart⟩
      · rw [hstart] at h
        exact absurd (h replacement List.mem_cons_self) (by decide)
      · rw [hstart] at h
        obtain ⟨c, hc, hnot⟩ := exists_not_ascii hp bytes
        exact absurd (h c hc) (Nat.not_lt.2 hnot)

/-- A text of ASCII characters is read from no other bytes than its own. -/
theorem encode_decode {bytes : Bytes} (h : Ascii (decode bytes).toList) :
    encode (decode bytes) = bytes := by
  rw [decode, String.toList_ofList] at h
  rw [encode, decode, String.toList_ofList]
  exact flatMap_decodeFrom h

end ObliviousRouting.Text
