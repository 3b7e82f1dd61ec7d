import ObliviousRouting.Bytes.Text

/-!
# Reading back what was written

Every text is read back from its UTF-8 form. The first byte of a character says how many bytes follow
and between which bounds the next one lies; the bytes of a character never leave these bounds, because
a code point is written in as few bytes as possible and is no surrogate.
-/

namespace ObliviousRouting.Text

/-! ### First bytes -/

theorem start_of_ascii {b : UInt8} (h : b.toNat < 0x80) : start b = ([Char.ofNat b.toNat], none) := by
  rw [start, if_pos (UInt8.lt_iff_toNat_lt.2 h)]

theorem start_of_two {b : UInt8} (hlow : 0xC2 ≤ b.toNat) (hhigh : b.toNat ≤ 0xDF) :
    start b = ([], some ⟨1, 0x80, 0xBF, b.toNat % 32⟩) := by
  simp only [start, UInt8.lt_iff_toNat_lt, UInt8.le_iff_toNat_le, ← UInt8.toNat_inj,
    UInt8.reduceToNat]
  rw [if_neg (by omega), if_pos (by omega)]

theorem start_of_three {b : UInt8} (hlow : 0xE0 ≤ b.toNat) (hhigh : b.toNat ≤ 0xEF) :
    start b = ([], some ⟨2, if b.toNat = 0xE0 then 0xA0 else 0x80,
      if b.toNat = 0xED then 0x9F else 0xBF, b.toNat % 16⟩) := by
  simp only [start, UInt8.lt_iff_toNat_lt, UInt8.le_iff_toNat_le, ← UInt8.toNat_inj,
    UInt8.reduceToNat]
  rw [if_neg (by omega), if_neg (by omega)]
  by_cases hE0 : b.toNat = 0xE0
  · simp [hE0]
  · by_cases hED : b.toNat = 0xED
    · simp [hED]
    · rw [if_neg hE0, if_neg hED, if_pos (by omega), if_neg hE0, if_neg hED]

theorem start_of_four {b : UInt8} (hlow : 0xF0 ≤ b.toNat) (hhigh : b.toNat ≤ 0xF4) :
    start b = ([], some ⟨3, if b.toNat = 0xF0 then 0x90 else 0x80,
      if b.toNat = 0xF4 then 0x8F else 0xBF, b.toNat % 8⟩) := by
  simp only [start, UInt8.lt_iff_toNat_lt, UInt8.le_iff_toNat_le, ← UInt8.toNat_inj,
    UInt8.reduceToNat]
  rw [if_neg (by omega), if_neg (by omega), if_neg (by omega), if_neg (by omega), if_neg (by omega)]
  by_cases hF0 : b.toNat = 0xF0
  · simp [hF0]
  · by_cases hF4 : b.toNat = 0xF4
    · simp [hF4]
    · rw [if_neg hF0, if_pos (by omega), if_neg hF0, if_neg hF4]

/-! ### Characters -/

theorem decodeFrom_cons (opened : Option Unfinished) (b : UInt8) (bytes : Bytes) :
    decodeFrom opened (b :: bytes) =
      (step opened b).1 ++ decodeFrom (step opened b).2 bytes := rfl

theorem step_within {p : Unfinished} {b : UInt8} (hlow : p.low.toNat ≤ b.toNat)
    (hhigh : b.toNat ≤ p.high.toNat) :
    step (some p) b =
      if p.owed ≤ 1 then ([Char.ofNat (64 * p.bits + b.toNat % 64)], none)
      else ([], some ⟨p.owed - 1, 0x80, 0xBF, 64 * p.bits + b.toNat % 64⟩) := by
  simp only [step]
  rw [if_pos ⟨UInt8.le_iff_toNat_le.2 hlow, UInt8.le_iff_toNat_le.2 hhigh⟩]

/-- The last byte of a character. -/
theorem decodeFrom_last {low high b : UInt8} {bits : Nat} (hlow : low.toNat ≤ b.toNat)
    (hhigh : b.toNat ≤ high.toNat) (bytes : Bytes) :
    decodeFrom (some ⟨1, low, high, bits⟩) (b :: bytes) =
      Char.ofNat (64 * bits + b.toNat % 64) :: decodeFrom none bytes := by
  rw [decodeFrom_cons, step_within hlow hhigh, if_pos (Nat.le_refl 1), List.singleton_append]

/-- A byte of a character that is not the last one. -/
theorem decodeFrom_more {low high b : UInt8} {owed bits : Nat} (howed : 1 < owed)
    (hlow : low.toNat ≤ b.toNat) (hhigh : b.toNat ≤ high.toNat) (bytes : Bytes) :
    decodeFrom (some ⟨owed, low, high, bits⟩) (b :: bytes) =
      decodeFrom (some ⟨owed - 1, 0x80, 0xBF, 64 * bits + b.toNat % 64⟩) bytes := by
  rw [decodeFrom_cons, step_within hlow hhigh, if_neg (Nat.not_le_of_lt howed), List.nil_append]

theorem toNat_ofNat_of_lt {n : Nat} (h : n < 256) : (UInt8.ofNat n).toNat = n := by
  rw [UInt8.toNat_ofNat', Nat.mod_eq_of_lt h]

theorem decodeFrom_utf8EncodeChar (c : Char) (bytes : Bytes) :
    decodeFrom none (String.utf8EncodeChar c ++ bytes) = c :: decodeFrom none bytes := by
  have hread {n : Nat} (h : n = c.val.toNat) : Char.ofNat n = c := by
    rw [h]
    exact Char.ofNat_toNat c
  have hvalid : c.val.toNat < 0xD800 ∨ 0xDFFF < c.val.toNat ∧ c.val.toNat < 0x110000 := c.valid
  -- the bytes after the first one hold six bits each
  have hmore (n : Nat) : (UInt8.ofNat (n % 0x40 + 0x80)).toNat = n % 64 + 128 :=
    toNat_ofNat_of_lt (by omega)
  have hbounds (n : Nat) : (0x80 : UInt8).toNat ≤ (UInt8.ofNat (n % 0x40 + 0x80)).toNat ∧
      (UInt8.ofNat (n % 0x40 + 0x80)).toNat ≤ (0xBF : UInt8).toNat := by
    rw [hmore]
    simp only [UInt8.reduceToNat]
    omega
  simp only [String.utf8EncodeChar]
  generalize c.val.toNat = v at hvalid hread
  split
  · have hfirst : (UInt8.ofNat v).toNat = v := toNat_ofNat_of_lt (by omega)
    rw [List.singleton_append, decodeFrom_cons, step, start_of_ascii (by omega), hfirst, hread rfl]
    rfl
  split
  · have hfirst : (UInt8.ofNat (v / 64 % 0x20 + 0xc0)).toNat = v / 64 % 32 + 192 :=
      toNat_ofNat_of_lt (by omega)
    simp only [List.cons_append, List.nil_append]
    rw [decodeFrom_cons, step, start_of_two (by omega) (by omega), List.nil_append,
      decodeFrom_last (hbounds _).1 (hbounds _).2, hmore, hfirst, hread (by omega)]
  split
  · have hfirst : (UInt8.ofNat (v / 4096 % 0x10 + 0xe0)).toNat = v / 4096 % 16 + 224 :=
      toNat_ofNat_of_lt (by omega)
    simp only [List.cons_append, List.nil_append]
    rw [decodeFrom_cons, step, start_of_three (by omega) (by omega), List.nil_append,
      decodeFrom_more (by decide), decodeFrom_last (hbounds _).1 (hbounds _).2, hmore, hmore, hfirst,
      hread (by omega)]
    · rw [hmore]
      split <;> simp only [UInt8.reduceToNat] <;> omega
    · rw [hmore]
      split <;> simp only [UInt8.reduceToNat] <;> omega
  · have hfirst : (UInt8.ofNat (v / 262144 % 0x08 + 0xf0)).toNat = v / 262144 % 8 + 240 :=
      toNat_ofNat_of_lt (by omega)
    simp only [List.cons_append, List.nil_append]
    rw [decodeFrom_cons, step, start_of_four (by omega) (by omega), List.nil_append,
      decodeFrom_more (by decide), decodeFrom_more (by decide) (hbounds _).1 (hbounds _).2,
      decodeFrom_last (hbounds _).1 (hbounds _).2, hmore, hmore, hmore, hfirst, hread (by omega)]
    · rw [hmore]
      split <;> simp only [UInt8.reduceToNat] <;> omega
    · rw [hmore]
      split <;> simp only [UInt8.reduceToNat] <;> omega

theorem decode_encode (text : String) : decode (encode text) = text := by
  have hchars (l : List Char) : decodeFrom none (l.flatMap String.utf8EncodeChar) = l := by
    induction l with
    | nil => rfl
    | cons c l ih => rw [List.flatMap_cons, decodeFrom_utf8EncodeChar, ih]
  rw [decode, encode, hchars, String.ofList_toList]

end ObliviousRouting.Text
