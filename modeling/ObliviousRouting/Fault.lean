/-!
# Faults and checked sizes

Sizes and indices are 64-bit quantities. A computation whose caller broke a contract (a product of
sizes that does not fit, an index past the end, a slice overwritten by one of another length) breaks
off with a `Fault`. Faults are kept apart from the errors that a role declares: a declared error is an
answer to what a peer did, a fault never should be.
-/

namespace ObliviousRouting

/-- Why a computation breaks off without an answer. -/
inductive Fault where
  /-- A size or an index does not fit into 64 bits. -/
  | overflow
  /-- A buffer would have more than `2 ^ 63 - 1` bytes. -/
  | tooLarge
  | outOfRange
  | unequalLengths
  | emptyRange
  /-- A list of targets names a row twice. -/
  | repeatedTarget
deriving DecidableEq, Repr

/-- A computation that gives a value or breaks off. -/
abbrev Checked := Except Fault

theorem Checked.ok_bind {α β : Type} (a : α) (f : α → Checked β) : (.ok a >>= f : Checked β) = f a := rfl

theorem Checked.of_bind {α β : Type} {x : Checked α} {f : α → Checked β} {b : β} (h : x >>= f = .ok b) :
    ∃ a, x = .ok a ∧ f a = .ok b := by
  cases x with
  | error f => cases h
  | ok a => exact ⟨a, rfl, h⟩

/-- Why something stops early that declares errors of its own. -/
inductive Stop (ε : Type) where
  | error (e : ε)
  /-- A contract that the caller broke. -/
  | fault (f : Fault)
deriving DecidableEq, Repr

theorem Stop.fault_ne_error {ε : Type} {f : Fault} {e : ε} : Stop.fault f ≠ .error e := by
  intro h
  cases h

def Stop.map {ε δ : Type} (f : ε → δ) : Stop ε → Stop δ
  | .error e => .error (f e)
  | .fault b => .fault b

/-- A value, a declared error or a fault. -/
abbrev Outcome (ε α : Type) := Except (Stop ε) α

/-- What goes wrong in one of two steps. -/
theorem Outcome.stop_of_bind {ε α β : Type} {P : Stop ε → Prop} {first : Outcome ε α}
    {second : α → Outcome ε β} (hfirst : ∀ stop, first = .error stop → P stop)
    (hsecond : ∀ a stop, second a = .error stop → P stop) (stop : Stop ε)
    (h : first >>= second = .error stop) : P stop := by
  cases first with
  | error stop' =>
    cases h
    exact hfirst _ rfl
  | ok a => exact hsecond a stop h

theorem Outcome.stop_of_guard {ε α : Type} {P : Stop ε → Prop} {bad : Prop} [Decidable bad] {e : ε}
    {next : Unit → Outcome ε α} (he : P (.error e)) (hnext : ∀ stop, next () = .error stop → P stop)
    (stop : Stop ε) (h : (if bad then throw (.error e) >>= next else next ()) = .error stop) : P stop := by
  split at h
  · cases h
    exact he
  · exact hnext stop h

namespace Size

/-- One more than the greatest size. -/
def limit : Nat := 0x10000000000000000

/-- One more than the greatest length of a buffer. -/
def bufferLimit : Nat := 0x8000000000000000

def add (a b : Nat) : Checked Nat :=
  if a + b < limit then .ok (a + b) else .error .overflow

/-- The difference of two sizes, which is none if it would be negative. -/
def sub (a b : Nat) : Checked Nat :=
  if b ≤ a then .ok (a - b) else .error .overflow

def mul (a b : Nat) : Checked Nat :=
  if a * b < limit then .ok (a * b) else .error .overflow

/-- Checks that a buffer of `n` bytes can be made, and gives its length back. -/
def buffer (n : Nat) : Checked Nat :=
  if n < bufferLimit then .ok n else .error .tooLarge

theorem add_eq_ok {a b : Nat} (h : a + b < limit) : add a b = .ok (a + b) := by
  simp [add, h]

theorem sub_eq_ok {a b : Nat} (h : b ≤ a) : sub a b = .ok (a - b) := by
  simp [sub, h]

theorem mul_eq_ok {a b : Nat} (h : a * b < limit) : mul a b = .ok (a * b) := by
  simp [mul, h]

theorem limit_eq : limit = 2 * bufferLimit := rfl

/-- What a buffer may have as its length is a size. -/
theorem mul_eq_ok_of_lt {a b : Nat} (h : a * b < bufferLimit) : mul a b = .ok (a * b) := by
  apply mul_eq_ok
  rw [limit_eq]
  omega

/-- So is the length of two such buffers. -/
theorem mul_two_eq_ok {n : Nat} (h : n < bufferLimit) : mul 2 n = .ok (2 * n) := by
  apply mul_eq_ok
  rw [limit_eq]
  omega

theorem buffer_eq_ok {n : Nat} (h : n < bufferLimit) : buffer n = .ok n := by
  simp [buffer, h]

theorem eq_of_add {a b sum : Nat} (h : add a b = .ok sum) : sum = a + b := by
  rw [add] at h
  split at h
  · cases h
    rfl
  · cases h

theorem eq_of_mul {a b product : Nat} (h : mul a b = .ok product) : product = a * b := by
  rw [mul] at h
  split at h
  · cases h
    rfl
  · cases h

theorem lt_of_buffer {n length : Nat} (h : buffer n = .ok length) : n < bufferLimit := by
  rw [buffer] at h
  split at h
  · assumption
  · cases h

end Size

end ObliviousRouting
