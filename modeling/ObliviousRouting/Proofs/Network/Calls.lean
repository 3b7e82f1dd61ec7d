import ObliviousRouting.Proofs.Network.Wiring
import ObliviousRouting.Proofs.Wire.Codec

/-!
# Calls of an end

An end sends and receives plain bytes and lists, and each of these calls is one exchange with a link: a list goes
as one message, and a message that comes in is read as a list. Whatever is called, and in whatever order, messages
come in as they were sent, and what is read of a message depends on the message alone: it begins with the number of
its elements and has at least so many, which says how long the list is.
-/

namespace ObliviousRouting

open Role

variable {α σ : Type}

namespace Process

theorem plays_send_iff {target : Nat} {phase : String} {message : Bytes} {f : Sent → α} {trace : Trace} {a : α} :
    (Process.send target phase message fun r => .done (f r)).Plays trace a ↔
      ∃ r, trace = [.sent target phase message r] ∧ a = f r := by
  constructor
  · intro h
    cases h with
    | send r hdone =>
      obtain ⟨rfl, rfl⟩ := hdone.of_done
      exact ⟨r, rfl, rfl⟩
  · rintro ⟨r, rfl, rfl⟩
    exact .send r (.done _)

theorem plays_receive_iff {source : Nat} {f : Received → α} {trace : Trace} {a : α} :
    (Process.receive source fun r => .done (f r)).Plays trace a ↔
      ∃ r, trace = [.received source r] ∧ a = f r := by
  constructor
  · intro h
    cases h with
    | receive r hdone =>
      obtain ⟨rfl, rfl⟩ := hdone.of_done
      exact ⟨r, rfl, rfl⟩
  · rintro ⟨r, rfl, rfl⟩
    exact .receive r (.done _)

end Process

/-- What a call for a list of a known length makes of a message. -/
def Codec.readOf (c : Codec α) (phase : String) (length : Nat) (message : Bytes) : Except LinkError (List α) :=
  match c.read phase message with
  | .ok l => if l.length = length then .ok l else .error ⟨phase, .wrongLength length l.length⟩
  | .error e => .error e

namespace Role

variable {c : Codec α} {place : Nat} {phase : String} {s s' : σ} {trace : Trace}

theorem runs_sendBytes_iff {message : Bytes} {result : Outcome LinkError Unit} :
    Runs (sendBytes place phase message) s trace result s' ↔
      ∃ answer : Sent, trace = [.sent place phase message answer] ∧
        result = (answer.mapError (LinkError.mk phase ∘ .notSent)).mapError .error ∧ s' = s := by
  have hstart : (sendBytes place phase message).start s = .send place phase message fun r =>
      .done ((r.mapError (LinkError.mk phase ∘ .notSent)).mapError .error, s) := rfl
  rw [Runs, hstart, Process.plays_send_iff]
  simp only [Prod.mk.injEq]

theorem runs_receiveBytes_iff {result : Outcome LinkError Bytes} :
    Runs (receiveBytes place phase) s trace result s' ↔
      ∃ answer : Received, trace = [.received place answer] ∧
        result = (Received.bytes phase answer).mapError .error ∧ s' = s := by
  have hstart : (receiveBytes place phase).start s = .receive place fun r =>
      .done ((Received.bytes phase r).mapError .error, s) := rfl
  rw [Runs, hstart, Process.plays_receive_iff]
  simp only [Prod.mk.injEq]

theorem runs_receiveList_iff {result : Outcome LinkError (List α)} :
    Runs (receiveList c place phase) s trace result s' ↔
      ∃ answer : Received, trace = [.received place answer] ∧
        result = (Received.bytes phase answer >>= c.read phase).mapError .error ∧ s' = s := by
  rw [Runs, start_receiveList, Process.plays_receive_iff]
  simp only [Prod.mk.injEq]

theorem start_receiveListOf (c : Codec α) (source : Nat) (phase : String) (length : Nat) (s : σ) :
    (receiveListOf c source phase length).start s = .receive source fun r =>
      .done ((Received.bytes phase r >>= c.readOf phase length).mapError .error, s) := by
  rw [receiveListOf, start_bind, start_receiveList, Process.receive_bind]
  refine congrArg (Process.receive source) (funext fun r => ?_)
  rw [Process.done_bind]
  cases r with
  | error failure => rfl
  | ok message =>
    rw [Received.bytes_ok_bind, Received.bytes_ok_bind, Codec.readOf]
    cases c.read phase message with
    | error e => rfl
    | ok l =>
      change (if l.length = length then pure l else fail ⟨phase, .wrongLength length l.length⟩ : Role σ LinkError
        (List α)).start s = .done ((if l.length = length then .ok l else
          .error ⟨phase, .wrongLength length l.length⟩ : Except LinkError (List α)).mapError .error, s)
      split <;> rfl

theorem runs_receiveListOf_iff {length : Nat} {result : Outcome LinkError (List α)} :
    Runs (receiveListOf c place phase length) s trace result s' ↔
      ∃ answer : Received, trace = [.received place answer] ∧
        result = (Received.bytes phase answer >>= c.readOf phase length).mapError .error ∧ s' = s := by
  rw [Runs, start_receiveListOf, Process.plays_receive_iff]
  simp only [Prod.mk.injEq]

end Role

/-! ### Reading -/

namespace Codec

variable {c : Codec α} {message : Bytes}

theorem Holds.exists_read (h : c.Holds message) (phase : String) :
    ∃ l, c.read phase message = .ok l ∧ l.length = announced message := by
  obtain ⟨l, hl, hlength⟩ := h.exists_decodeList?
  exact ⟨l, by rw [read, hl], hlength⟩

theorem read_eq_error (h : ¬ c.Holds message) (phase : String) :
    c.read phase message = .error ⟨"receiving " ++ phase, .malformed⟩ := by
  rw [read, decodeList?_eq_none h]

theorem Holds.readOf_eq_error (h : c.Holds message) (phase : String) {length : Nat}
    (hlength : announced message ≠ length) :
    c.readOf phase length message = .error ⟨phase, .wrongLength length (announced message)⟩ := by
  obtain ⟨l, hread, hcount⟩ := h.exists_read phase
  rw [readOf, hread]
  simp only
  rw [hcount, if_neg hlength]

/-- What calls make of messages. -/
structure Reads (c : Codec α) (phase : String) : Prop where
  /-- A list is read back, whatever comes after it. -/
  read_encodeList_append (l : List α) (rest : Bytes) : l.length < Size.limit →
    c.read phase (c.encodeList l ++ rest) = .ok l
  exists_read_iff (message : Bytes) : (∃ l, c.read phase message = .ok l) ↔ c.Holds message
  read_eq_error (message : Bytes) : ¬ c.Holds message →
    c.read phase message = .error ⟨"receiving " ++ phase, .malformed⟩
  exists_readOf_iff (length : Nat) (message : Bytes) : (∃ l, c.readOf phase length message = .ok l) ↔
    c.Holds message ∧ announced message = length
  readOf_eq_error (length : Nat) (message : Bytes) : c.Holds message → announced message ≠ length →
    c.readOf phase length message = .error ⟨phase, .wrongLength length (announced message)⟩

theorem reads (c : Codec α) (phase : String) : c.Reads phase where
  read_encodeList_append l rest hlength := by
    rw [read, c.decodeList?_encodeList hlength]
  exists_read_iff message := by
    constructor
    · intro haccepted
      obtain ⟨l, hl⟩ := haccepted
      by_contra hholds
      rw [Codec.read_eq_error hholds] at hl
      cases hl
    · intro hholds
      obtain ⟨l, hl, -⟩ := hholds.exists_read phase
      exact ⟨l, hl⟩
  read_eq_error message hholds := Codec.read_eq_error hholds phase
  exists_readOf_iff length message := by
    constructor
    · intro haccepted
      obtain ⟨l, hl⟩ := haccepted
      have hholds : c.Holds message := by
        by_contra hholds
        rw [readOf, Codec.read_eq_error hholds] at hl
        cases hl
      refine ⟨hholds, ?_⟩
      by_contra hlength
      rw [hholds.readOf_eq_error phase hlength] at hl
      cases hl
    · intro hboth
      obtain ⟨hholds, hlength⟩ := hboth
      obtain ⟨l, hl, hcount⟩ := hholds.exists_read phase
      exact ⟨l, by simp only [readOf, hl, hcount, hlength, if_pos]⟩
  readOf_eq_error length message hholds := hholds.readOf_eq_error phase

end Codec

/-! ### All calls -/

/-- Each call is one exchange, and the answer of the link decides on what it gives. -/
structure Codec.Calls (c : Codec α) (σ : Type) : Prop where
  sendBytes (place : Nat) (phase : String) (message : Bytes) (s s' : σ) (trace : Trace) (result) :
    Runs (Role.sendBytes place phase message) s trace result s' ↔
      ∃ answer : Sent, trace = [.sent place phase message answer] ∧
        result = (answer.mapError (LinkError.mk phase ∘ .notSent)).mapError .error ∧ s' = s
  sendList (place : Nat) (phase : String) (l : List α) (s s' : σ) (trace : Trace) (result) :
    Runs (Role.sendList c place phase l) s trace result s' ↔
      ∃ answer : Sent, trace = [.sent place phase (c.encodeList l) answer] ∧
        result = (answer.mapError (LinkError.mk phase ∘ .notSent)).mapError .error ∧ s' = s
  receiveBytes (place : Nat) (phase : String) (s s' : σ) (trace : Trace) (result) :
    Runs (Role.receiveBytes place phase) s trace result s' ↔
      ∃ answer : Received, trace = [.received place answer] ∧
        result = (Received.bytes phase answer).mapError .error ∧ s' = s
  receiveList (place : Nat) (phase : String) (s s' : σ) (trace : Trace) (result) :
    Runs (Role.receiveList c place phase) s trace result s' ↔
      ∃ answer : Received, trace = [.received place answer] ∧
        result = (Received.bytes phase answer >>= c.read phase).mapError .error ∧ s' = s
  receiveListOf (place : Nat) (phase : String) (length : Nat) (s s' : σ) (trace : Trace) (result) :
    Runs (Role.receiveListOf c place phase length) s trace result s' ↔
      ∃ answer : Received, trace = [.received place answer] ∧
        result = (Received.bytes phase answer >>= c.readOf phase length).mapError .error ∧ s' = s

theorem Codec.calls (c : Codec α) (σ : Type) : c.Calls σ where
  sendBytes _ _ _ _ _ _ _ := runs_sendBytes_iff
  sendList _ _ _ _ _ _ _ := runs_sendBytes_iff
  receiveBytes _ _ _ _ _ _ := runs_receiveBytes_iff
  receiveList _ _ _ _ _ _ := runs_receiveList_iff
  receiveListOf _ _ _ _ _ _ _ := runs_receiveListOf_iff

/-- However many ends there are, whatever they call and in whatever order: a mesh that is wired link by link
answers like one that keeps a queue for each two ends, what comes in at an end is the first of what was sent to
it, and lists are read back from the messages that they were sent as, and from no others. -/
theorem typed_messages_come_in_order (n : Nat) :
    (Wiring.channels n).Matches { parties := n } ∧
    (∀ (w : Wiring) (m : Mesh), w.Matches m →
      (∀ a b phase message, Wiring.Agree (w.send a b message) (m.send a b phase message)) ∧
      (∀ b a, Wiring.Agree (w.receive b a) (m.receive b a)) ∧ ∀ a, (w.drop a).Matches (m.drop a)) ∧
    (∀ {β : Type} (seats seats' : List (Seat β)) (history : History) (m : Mesh),
      Seat.Goes (seats, { parties := n }) history (seats', m) → Seat.InOrder n seats seats' history m) ∧
    (∀ {β : Type} (start last : List (Seat β) × Mesh), Relation.ReflTransGen Seat.Step start last →
      ∃ history, Seat.Goes start history last) ∧
    ∀ {α σ : Type} (c : Codec α), c.Calls σ ∧ ∀ phase, c.Reads phase :=
  ⟨Wiring.matches_channels n, fun _ _ h => ⟨h.send, h.receive, h.drop⟩, fun _ _ _ _ h => h.inOrder,
    fun _ _ h => Seat.Goes.exists_of_steps h, fun c => ⟨c.calls _, c.reads⟩⟩

/-- One end sends a list to another one, which waits for it. -/
def twoCalls : List (Seat (Outcome LinkError (List UInt32) × Unit)) :=
  [⟨0, (sendList .word32 1 "t" [1, 2, 3] >>= fun _ => pure []).start ()⟩,
    ⟨1, (receiveListOf .word32 0 "t" 3).start ()⟩]

theorem typed_messages_come_in_order_of_two : ∃ history m,
    Seat.Goes (twoCalls, { parties := 2 }) history ([⟨0, .done (.ok [], ())⟩, ⟨1, .done (.ok [1, 2, 3], ())⟩], m) ∧
      Seat.InOrder 2 twoCalls [⟨0, .done (.ok [], ())⟩, ⟨1, .done (.ok [1, 2, 3], ())⟩] history m ∧
      history.received 0 1 = [Codec.word32.encodeList [1, 2, 3]] ∧
      Wiring.Agree ((Wiring.channels 2).send 0 1 [7]) (Mesh.send { parties := 2 } 0 1 "t" [7]) ∧
      Codec.word32.read "t" (Codec.word32.encodeList [1, 2, 3] ++ [9]) = .ok [1, 2, 3] ∧
      Codec.word32.readOf "t" 2 (Codec.word32.encodeList [1, 2, 3]) = .error ⟨"t", .wrongLength 2 3⟩ := by
  obtain ⟨hmatches, hagree, hordered, -, hcalls⟩ := typed_messages_come_in_order 2
  have hstart : Seat.Goes (twoCalls, { parties := 2 }) [] (twoCalls, { parties := 2 }) := .start
  have hsent := hstart.pass (show twoCalls[0]? = some _ from rfl) (.send (.ok ())) (.send rfl)
  have hreceived := hsent.pass (show (twoCalls.set 0 _)[1]? = some _ from rfl) (.receive (.ok _)) (.receive rfl)
  have hread : Codec.word32.Reads "t" := (@hcalls _ Unit Codec.word32).2 "t"
  have hholds : Codec.word32.Holds (Codec.word32.encodeList [1, 2, 3]) := by
    constructor <;> decide
  exact ⟨_, _, hreceived, hordered _ _ _ _ hreceived, rfl, (hagree _ _ hmatches).1 0 1 "t" [7],
    hread.read_encodeList_append [1, 2, 3] [9] (by decide), hread.readOf_eq_error 2 _ hholds (by decide)⟩

end ObliviousRouting
