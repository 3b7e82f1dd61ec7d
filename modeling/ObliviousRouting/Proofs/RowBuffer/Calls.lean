import ObliviousRouting.Proofs.RowBuffer.Shapes

/-!
# Buffers under any calls

A buffer that is used in any way behaves as the list of its rows. A call breaks off exactly if it names a row that
there is not, hands over bytes of another length, or asks for more than a buffer can have, however far its
indices are out of range: either an offset does not fit into 64 bits then, or it lies behind the end. Calls write
in place, so that what a call has written before it breaks off would stay written; but whatever may go wrong is
found before the first byte is written.
-/

namespace ObliviousRouting.RowBuffer

open Bytes

/-! ### Calls -/

/-- What can be done with a buffer. -/
inductive Call where
  | row (i : Nat)
  | rows (first last : Nat)
  | all
  | setRow (i : Nat) (new : Bytes)
  | setRows (first last : Nat) (new : Bytes)
  | swap (i j : Nat)
  | xorRow (i : Nat) (bytes : Bytes)
  | copyRow (source target : Nat)
  | padTo (n : Nat)
deriving DecidableEq

/-- A computation that changes a buffer in place. What it has written stays written if it breaks off. -/
abbrev InPlace (α : Type) := ExceptT Fault (StateM RowBuffer) α

namespace InPlace

variable {α β : Type}

def start (x : InPlace α) (b : RowBuffer) : Checked α × RowBuffer := StateT.run (ExceptT.run x) b

/-- Reads from the buffer. -/
def look (f : RowBuffer → Checked α) : InPlace α := do
  ExceptT.mk (pure (f (← get)))

/-- Writes to the buffer, or breaks off before it does. -/
def change (f : RowBuffer → Checked RowBuffer) : InPlace Unit := do
  set (← look f)

/-- Where two different rows start, the lower one first, and what they are. -/
def find (i j : Nat) (b : RowBuffer) : Checked ((Nat × Bytes) × Nat × Bytes) := do
  let low ← Size.mul (min i j) b.stride
  let high ← Size.mul (max i j) b.stride
  let lower ← b.data.slice low (low + b.stride)
  let upper ← b.data.slice high (high + b.stride)
  return ((low, lower), high, upper)

/-- Exchanges two rows by writing first the lower one and then the upper one. -/
def swap (i j : Nat) : InPlace Unit :=
  if i = j then pure ()
  else do
    let ((low, lower), high, upper) ← look (find i j)
    change fun b => b.splice low (low + b.stride) upper
    change fun b => b.splice high (high + b.stride) lower

end InPlace

namespace Call

/-- Performs a call in place, and gives the strings that it hands out. -/
def perform : Call → InPlace (List Bytes)
  | .row i => do return [← InPlace.look (·.row i)]
  | .rows first last => do return [← InPlace.look (·.rows first last)]
  | .all => do return (← get).toList
  | .setRow i new => do InPlace.change (·.setRow i new); return []
  | .setRows first last new => do InPlace.change (·.setRows first last new); return []
  | .swap i j => do InPlace.swap i j; return []
  | .xorRow i bytes => do InPlace.change (·.xorRow i bytes); return []
  | .copyRow source target => do InPlace.change (·.copyRow source target); return []
  | .padTo n => do InPlace.change (·.padTo n); return []

/-- The strings that a call hands out and the buffer that it makes, unless it breaks off. -/
def attempt (b : RowBuffer) : Call → Checked (List Bytes × RowBuffer)
  | .row i => do return ([← b.row i], b)
  | .rows first last => do return ([← b.rows first last], b)
  | .all => return (b.toList, b)
  | .setRow i new => do return ([], ← b.setRow i new)
  | .setRows first last new => do return ([], ← b.setRows first last new)
  | .swap i j => do return ([], ← b.swap i j)
  | .xorRow i bytes => do return ([], ← b.xorRow i bytes)
  | .copyRow source target => do return ([], ← b.copyRow source target)
  | .padTo n => do return ([], ← b.padTo n)

/-- The buffer after a call, whether or not it has broken off. -/
def after (b : RowBuffer) (call : Call) : RowBuffer := (call.perform.start b).2

/-! ### Calls on a list of rows -/

/-- The call names some of the first `n` rows, and bytes that fit them. -/
def Allowed (width n : Nat) : Call → Prop
  | .row i => i < n
  | .rows first last => first ≤ last ∧ last ≤ n
  | .all => True
  | .setRow i new => i < n ∧ new.length = width
  | .setRows first last new => (first ≤ last ∧ last ≤ n) ∧ new.length = (last - first) * width
  | .swap i j => i = j ∨ i < n ∧ j < n
  | .xorRow i _ => i < n
  | .copyRow source target => source < n ∧ target < n
  | .padTo m => m * width < Size.bufferLimit

instance (width n : Nat) (call : Call) : Decidable (call.Allowed width n) := by
  cases call <;> unfold Allowed <;> infer_instance

/-- What a call hands out of some rows. -/
def answer (content : List Bytes) : Call → List Bytes
  | .row i => [content.getD i []]
  | .rows first last => [((content.drop first).take (last - first)).flatten]
  | .all => content
  | _ => []

/-- What a call makes of some rows. -/
def effect (width : Nat) (content : List Bytes) : Call → List Bytes
  | .row _ | .rows _ _ | .all => content
  | .setRow i new => content.set i new
  | .setRows first last new => content.take first ++ (new.chunks width ++ content.drop last)
  | .swap i j => (content.set i (content.getD j [])).set j (content.getD i [])
  | .xorRow i bytes => content.modify i (·.xor bytes)
  | .copyRow source target => content.set target (content.getD source [])
  | .padTo n => content ++ List.replicate (n - content.length) (Bytes.zeros width)

/-- The rows after a call. One that is not allowed leaves them as they are. -/
def onRows (width : Nat) (content : List Bytes) (call : Call) : List Bytes :=
  if call.Allowed width content.length then call.effect width content else content

end Call

/-! ### Writing in place -/

theorem range_of_slice {data : Storage} {start stop : Nat} {bytes : Bytes}
    (h : data.slice start stop = .ok bytes) :
    (start ≤ stop ∧ stop ≤ data.size) ∧ bytes.length = stop - start := by
  rw [Storage.slice] at h
  split at h
  next hrange =>
    cases h
    refine ⟨hrange, ?_⟩
    rw [Array.length_toList, Array.size_extract]
    omega
  next => cases h

theorem range_of_splice {b c : RowBuffer} {start stop : Nat} {new : Bytes} (h : b.splice start stop new = .ok c) :
    (start ≤ stop ∧ stop ≤ b.data.size) ∧ new.length = stop - start := by
  rw [splice] at h
  split at h
  next hrange =>
    split at h
    next hlength => exact ⟨hrange, hlength⟩
    next => cases h
  next => cases h

/-- Bytes that can be read can be written over, also in another buffer of that shape. -/
theorem splice_of_slice {b c : RowBuffer} (hlike : c.Alike b) {start stop : Nat} {old new : Bytes}
    (h : b.data.slice start stop = .ok old) (hnew : new.length = stop - start) :
    ∃ d, c.splice start stop new = .ok d ∧ d.Alike b := by
  obtain ⟨hrange, -⟩ := range_of_slice h
  rw [← hlike.data_size_eq] at hrange
  rw [splice, if_pos hrange, if_pos hnew]
  exact ⟨_, rfl, hlike.stride_eq, (Storage.size_overwrite ..).trans hlike.data_size_eq⟩

namespace InPlace

variable {α β : Type}

theorem start_bind (x : InPlace α) (f : α → InPlace β) (b : RowBuffer) :
    (x >>= f).start b = match x.start b with
      | (.ok a, c) => (f a).start c
      | (.error fault, c) => (.error fault, c) := by
  cases h : x.start b with
  | mk result c =>
    change (ExceptT.bindCont f (x.start b).1 : StateM RowBuffer _) (x.start b).2 = _
    rw [h]
    cases result with
    | ok a => rfl
    | error fault => rfl

theorem start_look (f : RowBuffer → Checked α) (b : RowBuffer) : (look f).start b = (f b, b) := rfl

theorem start_change (f : RowBuffer → Checked RowBuffer) (b : RowBuffer) :
    (change f).start b = match f b with
      | .ok c => (.ok (), c)
      | .error fault => (.error fault, b) := by
  rw [change, start_bind, start_look]
  cases f b with
  | ok c => rfl
  | error fault => rfl

theorem swap_eq_find {i j : Nat} (hne : i ≠ j) (b : RowBuffer) :
    b.swap i j = find i j b >>= fun ((low, lower), high, upper) =>
      b.splice low (low + b.stride) upper >>= fun c => c.splice high (high + c.stride) lower := by
  rw [RowBuffer.swap, if_neg hne, find]
  simp only [bind_assoc, pure_bind]

/-- Once two rows have been found, both can be written. -/
theorem splices_of_find {i j low high : Nat} {lower upper : Bytes} {b : RowBuffer}
    (h : find i j b = .ok ((low, lower), high, upper)) :
    ∃ c d, b.splice low (low + b.stride) upper = .ok c ∧ c.splice high (high + c.stride) lower = .ok d := by
  obtain ⟨_, -, h⟩ := Checked.of_bind h
  obtain ⟨_, -, h⟩ := Checked.of_bind h
  obtain ⟨_, hlower, h⟩ := Checked.of_bind h
  obtain ⟨_, hupper, h⟩ := Checked.of_bind h
  cases h
  have hlength : upper.length = low + b.stride - low := by
    rw [(range_of_slice hupper).2, Nat.add_sub_cancel_left, Nat.add_sub_cancel_left]
  have hlength' : lower.length = high + b.stride - high := by
    rw [(range_of_slice hlower).2, Nat.add_sub_cancel_left, Nat.add_sub_cancel_left]
  -- Writing the lower row has kept the shape, so the upper one still stands where it was found.
  obtain ⟨c, hc, hlike⟩ := splice_of_slice (.refl b) hlower hlength
  obtain ⟨d, hd, -⟩ := splice_of_slice hlike hupper hlength'
  rw [← hlike.stride_eq] at hd
  exact ⟨c, d, hc, hd⟩

/-- Nothing is written if two rows cannot be exchanged. -/
theorem start_swap (i j : Nat) (b : RowBuffer) : (swap i j).start b = (change (·.swap i j)).start b := by
  rw [start_change, swap]
  by_cases heq : i = j
  · rw [if_pos heq, RowBuffer.swap, if_pos heq]
    rfl
  · rw [if_neg heq, swap_eq_find heq, start_bind, start_look]
    cases hfind : find i j b with
    | error fault => rfl
    | ok found =>
      obtain ⟨⟨low, lower⟩, high, upper⟩ := found
      obtain ⟨c, d, hc, hd⟩ := splices_of_find hfind
      simp only [start_bind, start_change, Checked.ok_bind, hc, hd]

/-- What is left of a buffer by a computation that gives strings and a new buffer, or breaks off. -/
def settle (b : RowBuffer) : Checked (List Bytes × RowBuffer) → Checked (List Bytes) × RowBuffer
  | .ok (strings, c) => (.ok strings, c)
  | .error fault => (.error fault, b)

theorem start_look_return (f : RowBuffer → Checked Bytes) (b : RowBuffer) :
    (do return [← look f] : InPlace (List Bytes)).start b = settle b (do return ([← f b], b)) := by
  rw [start_bind, start_look]
  cases f b with
  | ok bytes => rfl
  | error fault => rfl

theorem start_change_return (f : RowBuffer → Checked RowBuffer) (b : RowBuffer) :
    (do change f; return [] : InPlace (List Bytes)).start b = settle b (do return ([], ← f b)) := by
  rw [start_bind, start_change]
  cases f b with
  | ok c => rfl
  | error fault => rfl

end InPlace

/-- A call that breaks off leaves the buffer as it is. -/
theorem Call.start_perform (call : Call) (b : RowBuffer) :
    call.perform.start b = InPlace.settle b (call.attempt b) := by
  cases call with
  | row i => exact InPlace.start_look_return (·.row i) b
  | rows first last => exact InPlace.start_look_return (·.rows first last) b
  | all => rfl
  | setRow i new => exact InPlace.start_change_return (·.setRow i new) b
  | setRows first last new => exact InPlace.start_change_return (·.setRows first last new) b
  | swap i j =>
    rw [perform, InPlace.start_bind, InPlace.start_swap, ← InPlace.start_bind]
    exact InPlace.start_change_return (·.swap i j) b
  | xorRow i bytes => exact InPlace.start_change_return (·.xorRow i bytes) b
  | copyRow source target => exact InPlace.start_change_return (·.copyRow source target) b
  | padTo n => exact InPlace.start_change_return (·.padTo n) b

/-! ### Calls that go through -/

/-- Rows that are exchanged with themselves, or do not exist, stay as they are. -/
theorem Call.effect_swap_self (width : Nat) (content : List Bytes) (i : Nat) :
    (Call.swap i i).effect width content = content := by
  have hset : content.set i (content.getD i []) = content := by
    rcases Nat.lt_or_ge i content.length with hi | hi
    · rw [List.getD_eq_getElem _ _ hi, List.set_getElem_self]
    · rw [List.set_eq_of_length_le hi]
  rw [effect, hset, hset]

namespace Holds

variable {b : RowBuffer} {width : Nat} {content : List Bytes}

/-- A call that is allowed does to a buffer what it does to the rows. -/
theorem attempt_of_allowed (h : b.Holds width content) (hwidth : 0 < width) {call : Call}
    (hcall : call.Allowed width content.length) :
    ∃ c, call.attempt b = .ok (call.answer content, c) ∧ c.Holds width (call.effect width content) := by
  cases call with
  | row i =>
    refine ⟨b, ?_, h⟩
    rw [Call.attempt, h.row_eq hcall, Call.answer, List.getD_eq_getElem _ _ hcall]
    rfl
  | rows first last =>
    refine ⟨b, ?_, h⟩
    rw [Call.attempt, h.rows_eq hcall.1 hcall.2]
    rfl
  | all => exact ⟨b, by rw [Call.attempt, h.toList_eq]; rfl, h⟩
  | setRow i new =>
    obtain ⟨c, hc, hrows⟩ := h.setRow hcall.1 hcall.2
    exact ⟨c, by rw [Call.attempt, hc]; rfl, hrows⟩
  | setRows first last new =>
    obtain ⟨⟨hle, hlast⟩, hlength⟩ := hcall
    have hdvd : width ∣ new.length := hlength ▸ Nat.dvd_mul_left ..
    have hcount : first + (new.chunks width).length = last := by
      rw [length_chunks, hlength, Nat.mul_div_cancel _ hwidth]
      omega
    obtain ⟨c, hc, hrows⟩ := h.setRows (uniform_chunks new) hcount hlast
    rw [flatten_chunks hdvd] at hc
    exact ⟨c, by rw [Call.attempt, hc]; rfl, hrows⟩
  | swap i j =>
    rcases hcall with rfl | ⟨hi, hj⟩
    · refine ⟨b, ?_, ?_⟩
      · rw [Call.attempt, RowBuffer.swap, if_pos rfl]
        rfl
      · rwa [Call.effect_swap_self]
    · obtain ⟨c, hc, hrows⟩ := h.swap hi hj
      refine ⟨c, by rw [Call.attempt, hc]; rfl, ?_⟩
      rwa [Call.effect, List.getD_eq_getElem _ _ hi, List.getD_eq_getElem _ _ hj]
  | xorRow i bytes =>
    obtain ⟨c, hc, hrows⟩ := h.xorRow hcall bytes
    refine ⟨c, by rw [Call.attempt, hc]; rfl, ?_⟩
    rwa [Call.effect, List.modify_eq_set, List.getElem?_eq_getElem hcall, Option.getD_some]
  | copyRow source target =>
    obtain ⟨c, hc, hrows⟩ := h.copyRow hcall.1 hcall.2
    refine ⟨c, by rw [Call.attempt, hc]; rfl, ?_⟩
    rwa [Call.effect, List.getD_eq_getElem _ _ hcall.1]
  | padTo n =>
    obtain ⟨c, hc, hrows⟩ := h.padTo (.inr hwidth) hcall
    exact ⟨c, by rw [Call.attempt, hc]; rfl, hrows⟩

/-! ### Calls that break off -/

variable (h : b.Holds width content) (hwidth : 0 < width)
include h hwidth

/-- An offset that is within the bytes is the offset of a row, or of the end. -/
theorem le_of_mul_le {n : Nat} (hn : n * b.stride ≤ b.data.size) : n ≤ content.length := by
  rw [h.stride_eq, h.data_size_eq] at hn
  exact Nat.le_of_mul_le_mul_right hn hwidth

theorem le_of_rows {first last : Nat} {bytes : Bytes} (hrows : b.rows first last = .ok bytes) :
    first ≤ last ∧ last ≤ content.length := by
  obtain ⟨start, hstart, hrows⟩ := Checked.of_bind hrows
  obtain ⟨stop, hstop, hrows⟩ := Checked.of_bind hrows
  rw [Size.eq_of_mul hstart, Size.eq_of_mul hstop] at hrows
  obtain ⟨⟨hle, hend⟩, -⟩ := range_of_slice hrows
  refine ⟨?_, h.le_of_mul_le hwidth hend⟩
  rw [h.stride_eq] at hle
  exact Nat.le_of_mul_le_mul_right hle hwidth

theorem lt_of_row {i : Nat} {bytes : Bytes} (hrow : b.row i = .ok bytes) : i < content.length := by
  obtain ⟨next, hnext, hrow⟩ := Checked.of_bind hrow
  rw [Size.eq_of_add hnext] at hrow
  exact (h.le_of_rows hwidth hrow).2

theorem le_of_setRows {first last : Nat} {new : Bytes} {c : RowBuffer}
    (hset : b.setRows first last new = .ok c) :
    (first ≤ last ∧ last ≤ content.length) ∧ new.length = (last - first) * width := by
  obtain ⟨start, hstart, hset⟩ := Checked.of_bind hset
  obtain ⟨stop, hstop, hset⟩ := Checked.of_bind hset
  rw [Size.eq_of_mul hstart, Size.eq_of_mul hstop] at hset
  obtain ⟨⟨hle, hend⟩, hlength⟩ := range_of_splice hset
  rw [h.stride_eq] at hle hlength
  refine ⟨⟨Nat.le_of_mul_le_mul_right hle hwidth, h.le_of_mul_le hwidth hend⟩, ?_⟩
  rw [hlength, Nat.sub_mul]

theorem lt_of_slice {i : Nat} {start : Nat} {bytes : Bytes} (hstart : Size.mul i b.stride = .ok start)
    (hslice : b.data.slice start (start + b.stride) = .ok bytes) : i < content.length := by
  obtain ⟨⟨-, hend⟩, -⟩ := range_of_slice hslice
  rw [Size.eq_of_mul hstart, ← Nat.succ_mul] at hend
  exact h.le_of_mul_le hwidth hend

/-- A call that does not break off is allowed. -/
theorem allowed_of_attempt {call : Call} {outcome : List Bytes × RowBuffer}
    (hcall : call.attempt b = .ok outcome) : call.Allowed width content.length := by
  -- Each call is followed to the check that it has passed.
  cases call with
  | row i =>
    obtain ⟨bytes, hrow, -⟩ := Checked.of_bind hcall
    exact h.lt_of_row hwidth hrow
  | rows first last =>
    obtain ⟨bytes, hrows, -⟩ := Checked.of_bind hcall
    exact h.le_of_rows hwidth hrows
  | all => trivial
  | setRow i new =>
    obtain ⟨c, hset, -⟩ := Checked.of_bind hcall
    obtain ⟨next, hnext, hset⟩ := Checked.of_bind hset
    rw [Size.eq_of_add hnext] at hset
    obtain ⟨⟨-, hi⟩, hlength⟩ := h.le_of_setRows hwidth hset
    rw [Nat.add_sub_cancel_left, Nat.one_mul] at hlength
    exact ⟨hi, hlength⟩
  | setRows first last new =>
    obtain ⟨c, hset, -⟩ := Checked.of_bind hcall
    exact h.le_of_setRows hwidth hset
  | swap i j =>
    by_cases heq : i = j
    · exact .inl heq
    · obtain ⟨c, hswap, -⟩ := Checked.of_bind hcall
      rw [RowBuffer.swap, if_neg heq] at hswap
      obtain ⟨low, -, hswap⟩ := Checked.of_bind hswap
      obtain ⟨high, hhigh, hswap⟩ := Checked.of_bind hswap
      obtain ⟨lower, -, hswap⟩ := Checked.of_bind hswap
      obtain ⟨upper, hupper, -⟩ := Checked.of_bind hswap
      have hmax : max i j < content.length := h.lt_of_slice hwidth hhigh hupper
      exact .inr ⟨by omega, by omega⟩
  | xorRow i bytes =>
    obtain ⟨c, hxor, -⟩ := Checked.of_bind hcall
    obtain ⟨old, hrow, -⟩ := Checked.of_bind hxor
    exact h.lt_of_row hwidth hrow
  | copyRow source target =>
    obtain ⟨c, hcopy, -⟩ := Checked.of_bind hcall
    obtain ⟨bytes, hrow, hcopy⟩ := Checked.of_bind hcopy
    obtain ⟨start, hstart, hcopy⟩ := Checked.of_bind hcopy
    refine ⟨h.lt_of_row hwidth hrow, ?_⟩
    obtain ⟨⟨-, hend⟩, -⟩ := range_of_splice hcopy
    rw [Size.eq_of_mul hstart, ← Nat.succ_mul] at hend
    exact h.le_of_mul_le hwidth hend
  | padTo n =>
    obtain ⟨c, hpad, -⟩ := Checked.of_bind hcall
    change n * width < Size.bufferLimit
    rw [RowBuffer.padTo] at hpad
    split at hpad
    next =>
      obtain ⟨length, hlength, hpad⟩ := Checked.of_bind hpad
      obtain ⟨_, hbuffer, -⟩ := Checked.of_bind hpad
      rw [← h.stride_eq, ← Size.eq_of_mul hlength]
      exact Size.lt_of_buffer hbuffer
    next hle =>
      apply h.mul_lt
      rw [← h.size_eq]
      omega

/-! ### Calls in turn -/

theorem start_of_allowed {call : Call} (hcall : call.Allowed width content.length) :
    ∃ c, call.perform.start b = (.ok (call.answer content), c) ∧ c.Holds width (call.effect width content) := by
  obtain ⟨c, hc, hrows⟩ := h.attempt_of_allowed hwidth hcall
  refine ⟨c, ?_, hrows⟩
  rw [Call.start_perform, hc]
  rfl

theorem start_of_not_allowed {call : Call} (hcall : ¬ call.Allowed width content.length) :
    ∃ fault, call.perform.start b = (.error fault, b) := by
  rw [Call.start_perform]
  cases hattempt : call.attempt b with
  | ok outcome => exact absurd (h.allowed_of_attempt hwidth hattempt) hcall
  | error fault => exact ⟨fault, rfl⟩

theorem after (call : Call) : (call.after b).Holds width (call.onRows width content) := by
  rw [Call.after, Call.onRows]
  split
  next hcall =>
    obtain ⟨c, hc, hrows⟩ := h.start_of_allowed hwidth hcall
    rw [hc]
    exact hrows
  next hcall =>
    obtain ⟨fault, hfault⟩ := h.start_of_not_allowed hwidth hcall
    rw [hfault]
    exact h

theorem foldl_after (calls : List Call) :
    (calls.foldl Call.after b).Holds width (calls.foldl (Call.onRows width) content) := by
  induction calls generalizing b content with
  | nil => exact h
  | cons call calls ih => exact ih (h.after hwidth call)

end Holds

/-- Every call does to a buffer what it does to the list of its rows, or breaks off and does nothing. -/
structure LikeRows (b : RowBuffer) : Prop where
  length_bytes : b.bytes.length = b.size * b.stride
  length_rows : b.toList.length = b.size
  /-- What is done in place is what the operations on buffers say. -/
  inPlace : ∀ call : Call, call.perform.start b = InPlace.settle b (call.attempt b)
  allowed : ∀ call : Call, call.Allowed b.stride b.size → ∃ c,
    call.perform.start b = (.ok (call.answer b.toList), c) ∧ c.stride = b.stride ∧
      c.toList = call.effect b.stride b.toList
  refused : ∀ call : Call, ¬ call.Allowed b.stride b.size →
    ∃ fault, call.perform.start b = (.error fault, b)
  swap_self : ∀ i, (Call.swap i i).perform.start b = (.ok [], b)

theorem likeRows {b : RowBuffer} (hwidth : 0 < b.stride) (hfits : b.data.size < Size.bufferLimit) :
    b.LikeRows := by
  have h : b.Holds b.stride b.toList := holds_toList hfits
  have hsize : b.toList.length = b.size := b.length_toList
  constructor
  · rw [length_bytes, size_mul_stride]
  · exact hsize
  · exact fun call => call.start_perform b
  · intro call hcall
    obtain ⟨c, hc, hrows⟩ := h.start_of_allowed hwidth (hsize ▸ hcall)
    exact ⟨c, hc, hrows.stride_eq, hrows.toList_eq⟩
  · intro call hcall
    exact h.start_of_not_allowed hwidth (hsize ▸ hcall)
  · intro i
    rw [Call.start_perform, Call.attempt, swap, if_pos rfl]
    rfl

/-- Whatever calls are made, those that break off included, a buffer stays the buffer of the rows that a list would
have after them, and goes on to behave like it. -/
theorem calls_refine_rows (b : RowBuffer) (calls : List Call) (hwidth : 1 ≤ b.stride)
    (hfits : b.data.size < Size.bufferLimit) :
    (calls.foldl Call.after b).stride = b.stride ∧
      (calls.foldl Call.after b).toList = calls.foldl (Call.onRows b.stride) b.toList ∧
      (calls.foldl Call.after b).LikeRows := by
  have h := (holds_toList hfits).foldl_after hwidth calls
  refine ⟨h.stride_eq, h.toList_eq, likeRows ?_ h.fits⟩
  rw [h.stride_eq]
  exact hwidth

/-- Three rows of two bytes. -/
def threeRows : RowBuffer := ⟨#[1, 1, 2, 2, 3, 3], 2, by decide⟩

/-- Calls among which three go too far and one exchanges a row that does not exist with itself. -/
def farCalls : List Call :=
  [.swap 2 0, .swap 7 7, .copyRow 1 3, .padTo 4, .xorRow 3 [5, 6, 7], .setRow 1 [9], .row 0xffffffffffffffff,
    .copyRow 3 1]

theorem calls_refine_rows_of_far :
    1 ≤ threeRows.stride ∧ threeRows.data.size < Size.bufferLimit ∧
      farCalls.foldl (Call.onRows 2) threeRows.toList = [[3, 3], [5, 6], [1, 1], [5, 6]] ∧
      (farCalls.foldl Call.after threeRows).stride = 2 ∧
      (farCalls.foldl Call.after threeRows).toList = farCalls.foldl (Call.onRows 2) threeRows.toList ∧
      (farCalls.foldl Call.after threeRows).LikeRows := by
  have hwidth : 1 ≤ threeRows.stride := by decide
  have hfits : threeRows.data.size < Size.bufferLimit := by decide
  exact ⟨hwidth, hfits, by decide +kernel, calls_refine_rows threeRows farCalls hwidth hfits⟩

end ObliviousRouting.RowBuffer
