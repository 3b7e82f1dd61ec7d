import ObliviousRouting.CoinToss
import ObliviousRouting.Proofs.Bytes.Rows
import ObliviousRouting.Pass.Target

/-!
# Lists on the wire

A list that was written is read back, whatever follows it in the message, if its length fits into the
eight bytes of the count.
-/

namespace ObliviousRouting.Codec

open Bytes

variable {α : Type} (c : Codec α)

theorem uniform_map_encode (l : List α) : Uniform c.width (l.map c.encode) := by
  intro bytes hbytes
  obtain ⟨a, -, rfl⟩ := List.mem_map.1 hbytes
  exact c.length_encode a

theorem mapM_decode_encode (l : List α) : (l.map c.encode).mapM c.decode = some l := by
  induction l with
  | nil => rfl
  | cons a l ih => rw [List.map_cons, List.mapM_cons, c.decode_encode, ih]; rfl

theorem length_flatMap_encode (l : List α) : (l.flatMap c.encode).length = l.length * c.width := by
  rw [List.flatMap_def, (c.uniform_map_encode l).length_flatten, List.length_map]

theorem length_encodeList (l : List α) : (c.encodeList l).length = 8 + l.length * c.width := by
  rw [encodeList, List.length_append, LittleEndian.length_encode, length_flatMap_encode]

theorem decodeList?_encodeList {l : List α} (h : l.length < Size.limit) (rest : Bytes) :
    c.decodeList? (c.encodeList l ++ rest) = some l := by
  have hcount : LittleEndian.decode (LittleEndian.encode 8 l.length) = l.length :=
    LittleEndian.decode_encode h
  have helements := c.length_flatMap_encode l
  have hhead := LittleEndian.length_encode 8 l.length
  rw [decodeList?, encodeList, List.append_assoc, List.take_left' hhead, List.drop_left' hhead, hcount]
  rw [if_neg, List.take_left' helements, List.flatMap_def,
    (c.uniform_map_encode l).chunks_flatten c.width_pos, mapM_decode_encode]
  simp only [List.length_append, hhead, helements]
  omega

/-- Different lists are written differently. -/
theorem encodeList_inj {l l' : List α} (h : l.length < Size.limit) (h' : l'.length < Size.limit)
    (heq : c.encodeList l = c.encodeList l') : l = l' := by
  have hread := c.decodeList?_encodeList h []
  rw [heq, c.decodeList?_encodeList h'] at hread
  exact (Option.some.inj hread).symm

theorem read_encodeList {l : List α} (h : l.length < Size.limit) (phase : String) :
    c.read phase (c.encodeList l) = .ok l := by
  have hdecode := c.decodeList?_encodeList h []
  rw [List.append_nil] at hdecode
  rw [read, hdecode]

/-! ### What can be read -/

/-- The number that the first eight bytes of a message stand for. -/
def announced (message : Bytes) : Nat := LittleEndian.decode (message.take 8)

/-- A message begins with a number, and at least so many whole elements come after it. -/
def Holds (message : Bytes) : Prop := 8 ≤ message.length ∧ announced message * c.width ≤ message.length - 8

theorem exists_mapM_decode {strings : List Bytes} (h : Uniform c.width strings) :
    ∃ l, strings.mapM c.decode = some l ∧ l.length = strings.length := by
  induction strings with
  | nil => exact ⟨[], rfl, rfl⟩
  | cons bytes strings ih =>
    rw [Uniform.cons_iff] at h
    obtain ⟨a, ha⟩ := c.exists_decode h.1
    obtain ⟨l, hl, hlength⟩ := ih h.2
    refine ⟨a :: l, ?_, congrArg Nat.succ hlength⟩
    rw [List.mapM_cons, ha, hl]
    rfl

variable {c}

theorem Holds.exists_decodeList? {message : Bytes} (h : c.Holds message) :
    ∃ l, c.decodeList? message = some l ∧ l.length = announced message := by
  have helements : ((message.drop 8).take (announced message * c.width)).length = announced message * c.width := by
    rw [List.length_take, List.length_drop, Nat.min_eq_left h.2]
  have huniform : Uniform c.width (chunks c.width ((message.drop 8).take (announced message * c.width))) :=
    uniform_chunks _
  obtain ⟨l, hl, hlength⟩ := c.exists_mapM_decode huniform
  refine ⟨l, ?_, ?_⟩
  · have hlong : ¬ (message.length < 8 ∨ (message.drop 8).length < announced message * c.width) := by
      rw [not_or, List.length_drop]
      exact ⟨Nat.not_lt.2 h.1, Nat.not_lt.2 h.2⟩
    rw [← hl]
    exact if_neg hlong
  · rw [hlength, length_chunks, helements, Nat.mul_div_cancel _ c.width_pos]

theorem decodeList?_eq_none {message : Bytes} (h : ¬ c.Holds message) : c.decodeList? message = none := by
  have hshort : message.length < 8 ∨ (message.drop 8).length < announced message * c.width := by
    rw [Holds] at h
    rw [List.length_drop]
    omega
  exact if_pos hshort

variable (c)

/-- Every string of the width of a codec is the way in which what it stands for is written. -/
def Exact : Prop := ∀ bytes a, c.decode bytes = some a → c.encode a = bytes

theorem exact_byte : byte.Exact := by
  intro bytes b h
  match bytes, h with
  | [_], rfl => rfl

theorem exact_word256 : word256.Exact := by
  intro bytes w h
  obtain ⟨_, hw⟩ := Option.dite_none_right_eq_some.1 h
  rw [← Option.some.inj hw]
  rfl

theorem exact_word32 : word32.Exact := by
  intro bytes w h
  obtain ⟨hlength, hw⟩ := Option.ite_none_right_eq_some.1 h
  have hlt := LittleEndian.decode_lt bytes
  rw [hlength] at hlt
  cases hw
  change LittleEndian.encode 4 (UInt32.ofNat (LittleEndian.decode bytes)).toNat = bytes
  rw [UInt32.toNat_ofNat_of_lt' hlt, ← hlength, LittleEndian.encode_decode]

theorem exact_target : Target.codec.Exact := by
  intro bytes t h
  obtain ⟨w, hw, rfl⟩ := Option.map_eq_some_iff.1 h
  exact exact_word32 bytes w hw

variable {c}

theorem Exact.map_encode (h : c.Exact) {strings : List Bytes} {l : List α}
    (hl : strings.mapM c.decode = some l) : l.map c.encode = strings := by
  induction strings generalizing l with
  | nil =>
    cases hl
    rfl
  | cons bytes strings ih =>
    rw [List.mapM_cons] at hl
    obtain ⟨a, ha, hl⟩ := Option.bind_eq_some_iff.1 hl
    obtain ⟨l', hl', heq⟩ := Option.bind_eq_some_iff.1 hl
    cases heq
    rw [List.map_cons, h bytes a ha, ih hl']

/-- A string is read as a list if it begins with that list. What follows is ignored. -/
theorem Exact.decodeList?_eq_some_iff (h : c.Exact) {bytes : Bytes} {l : List α} :
    c.decodeList? bytes = some l ↔ l.length < Size.limit ∧ ∃ rest, bytes = c.encodeList l ++ rest := by
  constructor
  · intro hread
    simp only [decodeList?] at hread
    split at hread
    · cases hread
    next hlong =>
      rw [not_or, Nat.not_lt, Nat.not_lt] at hlong
      obtain ⟨hhead, helements⟩ := hlong
      have hlength : (bytes.take 8).length = 8 := by rw [List.length_take, Nat.min_eq_left hhead]
      have hencode := LittleEndian.encode_decode (bytes.take 8)
      have hlt := LittleEndian.decode_lt (bytes.take 8)
      rw [hlength] at hencode hlt
      generalize LittleEndian.decode (bytes.take 8) = count at *
      have hread' := h.map_encode hread
      have hbytes : ((bytes.drop 8).take (count * c.width)).length = count * c.width := by
        rw [List.length_take, Nat.min_eq_left helements]
      have hcount : l.length = count := by
        rw [← List.length_map (f := c.encode), hread', length_chunks, hbytes,
          Nat.mul_div_cancel _ c.width_pos]
      have hdvd : c.width ∣ ((bytes.drop 8).take (count * c.width)).length :=
        ⟨count, by rw [hbytes, Nat.mul_comm]⟩
      refine ⟨hcount ▸ hlt, (bytes.drop 8).drop (count * c.width), ?_⟩
      rw [encodeList, hcount, hencode, List.flatMap_def, hread', flatten_chunks hdvd, List.append_assoc,
        List.take_append_drop, List.take_append_drop]
  · rintro ⟨hlt, rest, rfl⟩
    exact c.decodeList?_encodeList hlt rest

/-- A message is read as a list if it begins with that list. -/
theorem Exact.read_eq_ok_iff (h : c.Exact) {phase : String} {message : Bytes} {l : List α} :
    c.read phase message = .ok l ↔ l.length < Size.limit ∧ ∃ rest, message = c.encodeList l ++ rest := by
  rw [← h.decodeList?_eq_some_iff, read]
  cases c.decodeList? message with
  | none => simp
  | some l' => simp

/-- A list is read from a message that begins with it. -/
theorem Exact.receive_eq_ok_iff (h : c.Exact) {phase : String} {r : Received} {l : List α} :
    (Received.bytes phase r >>= c.read phase) = .ok l ↔
      l.length < Size.limit ∧ ∃ rest, r = .ok (c.encodeList l ++ rest) := by
  cases r with
  | error failure =>
    constructor
    · exact fun h => nomatch h
    · exact fun ⟨_, _, h⟩ => nomatch h
  | ok message =>
    change c.read phase message = .ok l ↔ _
    rw [h.read_eq_ok_iff]
    simp only [Except.ok.injEq]

end ObliviousRouting.Codec
