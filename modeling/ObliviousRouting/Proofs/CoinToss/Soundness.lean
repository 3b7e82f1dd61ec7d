import ObliviousRouting.Process.Script
import ObliviousRouting.Proofs.CoinToss.Rounds
import ObliviousRouting.Proofs.Network.Traces

/-!
# A toss with any peer

A toss is four exchanges with the peer, and whatever the peer and the links do, there are only four ways in
which it can run (`TossRun`). So a seed comes out just where the peer has committed itself and has opened
what it had committed to, and the own secret leaves only after the commitment of the peer has come. The
number of the party is part of what is committed to, so a peer that sends back what it is sent is found out.

Where a commitment could be opened in two ways, the openings would be two inputs with the same digest, and
they are named. Nothing is assumed of the digest.
-/

namespace ObliviousRouting.CoinToss

open Role

/-- How the commitment of a peer is read. -/
def readCommitment (phase : String) (r : Received) : Except LinkError Word256 := do
  match ← Received.bytes phase r >>= Codec.word256.read phase with
  | [theirs] => return theirs
  | l => throw ⟨phase, .wrongLength 1 l.length⟩

/-- How the opening of a peer is read. -/
def readSecret (phase : String) (r : Received) : Except LinkError Word256 := do
  let bytes ← Received.bytes phase r >>= Codec.byte.read phase
  match Word256.ofBytes? bytes with
  | some opened => return opened
  | none => throw ⟨phase, .wrongLength 32 bytes.length⟩

def refusal (phase : String) (failure : SendFailure) : Outcome TossError Seed :=
  .error (.error (.link ⟨phase, .notSent failure⟩))

/-- What is made of the opening of a peer. -/
def verdict (secret theirs : Word256) (other : Nat) (opened : Except LinkError Word256) :
    Outcome TossError Seed :=
  match opened with
  | .error e => .error (.error (.link e))
  | .ok opened =>
    if commitment opened other = theirs then .ok (secret.xor opened) else .error (.error (.notOpened other))

variable {own other : Nat} {phase : String} {tape : Tape}

theorem start_receiveCommitment {σ : Type} (other : Nat) (phase : String) (s : σ) :
    (receiveCommitment other phase).start s =
      .receive other fun r => .done ((readCommitment phase r).mapError .error, s) := by
  rw [receiveCommitment, start_bind, start_receiveList, Process.receive_bind]
  congr 1
  funext r
  rw [Process.done_bind, readCommitment]
  cases Received.bytes phase r >>= Codec.word256.read phase with
  | error e => rfl
  | ok l =>
    match l with
    | [] => rfl
    | [_] => rfl
    | _ :: _ :: _ => rfl

theorem start_receiveSecret {σ : Type} (other : Nat) (phase : String) (s : σ) :
    (receiveSecret other phase).start s =
      .receive other fun r => .done ((readSecret phase r).mapError .error, s) := by
  rw [receiveSecret, start_bind, start_receiveList, Process.receive_bind]
  congr 1
  funext r
  rw [Process.done_bind, readSecret]
  cases Received.bytes phase r >>= Codec.byte.read phase with
  | error e => rfl
  | ok bytes =>
    change (match Word256.ofBytes? bytes with
      | some opened => pure opened
      | none => fail _ : Role σ LinkError Word256).start s =
        .done (Except.mapError _ (match Word256.ofBytes? bytes with
          | some opened => pure opened
          | none => throw _), s)
    cases Word256.ofBytes? bytes with
    | none => rfl
    | some opened => rfl

/-- A toss is four exchanges with the peer. -/
theorem start_toss : (toss own other phase).start tape =
    .send other phase (Codec.word256.encodeList [commitment tape.secret.1 own]) fun
      | .error failure => .done (refusal phase failure, tape.secret.2)
      | .ok () => .receive other fun r => match readCommitment phase r with
        | .error e => .done (.error (.error (.link e)), tape.secret.2)
        | .ok theirs => .send other phase (Codec.byte.encodeList tape.secret.1.bytes) fun
          | .error failure => .done (refusal phase failure, tape.secret.2)
          | .ok () => .receive other fun r =>
            .done (verdict tape.secret.1 theirs other (readSecret phase r), tape.secret.2) := by
  rw [toss, start_bind, (Performs.modifyGet Tape.secret tape).eq_of_nil, Process.done_bind]
  generalize tape.secret = drawn
  obtain ⟨secret, rest⟩ := drawn
  simp only
  rw [start_mapError_bind]
  refine congrArg (Process.send other phase _) (funext fun answer => ?_)
  cases answer with
  | error failure => rfl
  | ok _ =>
    change (Role.mapError TossError.link (receiveCommitment other phase) >>= _).start rest = _
    rw [start_mapError_bind, start_receiveCommitment, Process.receive_bind]
    congr 1
    funext r
    rw [Process.done_bind]
    cases readCommitment phase r with
    | error e => rfl
    | ok theirs =>
      change (Role.mapError TossError.link (sendList Codec.byte other phase secret.bytes) >>= _).start rest = _
      rw [start_mapError_bind]
      refine congrArg (Process.send other phase _) (funext fun answer => ?_)
      cases answer with
      | error failure => rfl
      | ok _ =>
        change (Role.mapError TossError.link (receiveSecret other phase) >>= _).start rest = _
        rw [start_mapError_bind, start_receiveSecret, Process.receive_bind]
        congr 1
        funext r
        rw [Process.done_bind]
        cases readSecret phase r with
        | error e => rfl
        | ok opened =>
          simp only [verdict, Except.mapError]
          split <;> rfl

/-! ### All runs of a toss -/

/-- The runs of a toss: it ends where a message cannot be sent or the commitment of the peer cannot be read,
and otherwise with its verdict on the opening. -/
inductive TossRun (own other : Nat) (phase : String) (secret : Word256) :
    Trace → Outcome TossError Seed → Prop
  | unsent (failure : SendFailure) :
      TossRun own other phase secret
        [.sent other phase (Codec.word256.encodeList [commitment secret own]) (.error failure)]
        (refusal phase failure)
  | uncommitted {r : Received} {e : LinkError} (h : readCommitment phase r = .error e) :
      TossRun own other phase secret
        [.sent other phase (Codec.word256.encodeList [commitment secret own]) (.ok ()), .received other r]
        (.error (.error (.link e)))
  | unopened {r : Received} {theirs : Word256} (h : readCommitment phase r = .ok theirs)
      (failure : SendFailure) :
      TossRun own other phase secret
        [.sent other phase (Codec.word256.encodeList [commitment secret own]) (.ok ()), .received other r,
          .sent other phase (Codec.byte.encodeList secret.bytes) (.error failure)]
        (refusal phase failure)
  | opened {r : Received} {theirs : Word256} (h : readCommitment phase r = .ok theirs) (r' : Received) :
      TossRun own other phase secret
        [.sent other phase (Codec.word256.encodeList [commitment secret own]) (.ok ()), .received other r,
          .sent other phase (Codec.byte.encodeList secret.bytes) (.ok ()), .received other r']
        (verdict secret theirs other (readSecret phase r'))

theorem runs_toss_iff {trace : Trace} {result : Outcome TossError Seed} {tape' : Tape} :
    Runs (toss own other phase) tape trace result tape' ↔
      TossRun own other phase tape.secret.1 trace result ∧ tape' = tape.secret.2 := by
  rw [Runs, start_toss]
  constructor
  · intro h
    cases h with
    | send answer h =>
      cases answer with
      | error failure =>
        obtain ⟨rfl, heq⟩ := h.of_done
        cases heq
        exact ⟨.unsent failure, rfl⟩
      | ok _ =>
        cases h with
        | receive r h =>
          cases hread : readCommitment phase r with
          | error e =>
            simp only [hread] at h
            obtain ⟨rfl, heq⟩ := h.of_done
            cases heq
            exact ⟨.uncommitted hread, rfl⟩
          | ok theirs =>
            simp only [hread] at h
            cases h with
            | send answer h =>
              cases answer with
              | error failure =>
                obtain ⟨rfl, heq⟩ := h.of_done
                cases heq
                exact ⟨.unopened hread failure, rfl⟩
              | ok _ =>
                cases h with
                | receive r' h =>
                  obtain ⟨rfl, heq⟩ := h.of_done
                  cases heq
                  exact ⟨.opened hread r', rfl⟩
  · rintro ⟨hrun, rfl⟩
    cases hrun with
    | unsent failure => exact .send _ (.done _)
    | uncommitted h =>
      refine .send _ (.receive _ ?_)
      rw [h]
      exact .done _
    | unopened h failure =>
      refine .send _ (.receive _ ?_)
      rw [h]
      exact .send _ (.done _)
    | opened h r' =>
      refine .send _ (.receive _ ?_)
      rw [h]
      exact .send _ (.receive _ (.done _))

/-! ### What is accepted -/

theorem readCommitment_eq_ok_iff {r : Received} {theirs : Word256} :
    readCommitment phase r = .ok theirs ↔
      ∃ rest, r = .ok (Codec.word256.encodeList [theirs] ++ rest) := by
  have hlist : readCommitment phase r = .ok theirs ↔
      (Received.bytes phase r >>= Codec.word256.read phase) = .ok [theirs] := by
    rw [readCommitment]
    cases Received.bytes phase r >>= Codec.word256.read phase with
    | error e => exact ⟨(fun h => nomatch h), fun h => nomatch h⟩
    | ok l =>
      match l with
      | [] => exact ⟨(fun h => nomatch h), fun h => nomatch h⟩
      | [a] => exact ⟨fun h => by cases h; rfl, fun h => by cases h; rfl⟩
      | _ :: _ :: _ => exact ⟨(fun h => nomatch h), fun h => nomatch h⟩
  rw [hlist, Codec.exact_word256.receive_eq_ok_iff, List.length_singleton]
  exact and_iff_right (by decide)

theorem readCommitment_encodeList (theirs : Word256) (rest : Bytes) :
    readCommitment phase (.ok (Codec.word256.encodeList [theirs] ++ rest)) = .ok theirs :=
  readCommitment_eq_ok_iff.2 ⟨rest, rfl⟩

theorem ofBytes?_eq_some_iff {bytes : Bytes} {w : Word256} :
    Word256.ofBytes? bytes = some w ↔ bytes = w.bytes := by
  constructor
  · exact fun h => (Codec.exact_word256 bytes w h).symm
  · rintro rfl
    exact w.ofBytes?_bytes

theorem readSecret_eq_ok_iff {r : Received} {opened : Word256} :
    readSecret phase r = .ok opened ↔ ∃ rest, r = .ok (Codec.byte.encodeList opened.bytes ++ rest) := by
  have hbytes : readSecret phase r = .ok opened ↔
      (Received.bytes phase r >>= Codec.byte.read phase) = .ok opened.bytes := by
    rw [readSecret]
    cases Received.bytes phase r >>= Codec.byte.read phase with
    | error e => exact ⟨(fun h => nomatch h), fun h => nomatch h⟩
    | ok bytes =>
      rw [Except.ok.injEq, ← ofBytes?_eq_some_iff]
      change (match Word256.ofBytes? bytes with
        | some opened => pure opened
        | none => throw _ : Except LinkError Word256) = .ok opened ↔ _
      cases Word256.ofBytes? bytes with
      | none => exact ⟨(fun h => nomatch h), fun h => nomatch h⟩
      | some w => exact ⟨fun h => by cases h; rfl, fun h => by cases h; rfl⟩
  rw [hbytes, Codec.exact_byte.receive_eq_ok_iff]
  refine and_iff_right ?_
  rw [opened.length_bytes]
  decide

theorem readSecret_encodeList (opened : Word256) (rest : Bytes) :
    readSecret phase (.ok (Codec.byte.encodeList opened.bytes ++ rest)) = .ok opened :=
  readSecret_eq_ok_iff.2 ⟨rest, rfl⟩

theorem verdict_eq_ok_iff {secret theirs : Word256} {read : Except LinkError Word256} {seed : Seed} :
    verdict secret theirs other read = .ok seed ↔
      ∃ opened, read = .ok opened ∧ commitment opened other = theirs ∧ seed = secret.xor opened := by
  cases read with
  | error e => simp [verdict]
  | ok opened =>
    simp only [verdict, Except.ok.injEq, exists_eq_left']
    split
    next h => simp [h, eq_comm]
    next h => simp [h]

/-- A toss gives a seed if both messages are sent, and if the peer commits itself and then opens what it has
committed to. Whatever follows a commitment or an opening in its message is ignored. -/
theorem runs_toss_ok_iff {trace : Trace} {seed : Seed} {tape' : Tape} :
    Runs (toss own other phase) tape trace (.ok seed) tape' ↔
      tape' = tape.secret.2 ∧ ∃ opened rest rest',
        trace =
          [.sent other phase (Codec.word256.encodeList [commitment tape.secret.1 own]) (.ok ()),
            .received other (.ok (Codec.word256.encodeList [commitment opened other] ++ rest)),
            .sent other phase (Codec.byte.encodeList tape.secret.1.bytes) (.ok ()),
            .received other (.ok (Codec.byte.encodeList opened.bytes ++ rest'))] ∧
        seed = tape.secret.1.xor opened := by
  rw [runs_toss_iff, and_comm, and_congr_right_iff]
  rintro -
  constructor
  · intro h
    generalize hresult : (.ok seed : Outcome TossError Seed) = result at h
    cases h with
    | unsent failure => cases hresult
    | uncommitted h => cases hresult
    | unopened h failure => cases hresult
    | opened h r' =>
      obtain ⟨opened, hopened, rfl, rfl⟩ := verdict_eq_ok_iff.1 hresult.symm
      obtain ⟨rest, rfl⟩ := readCommitment_eq_ok_iff.1 h
      obtain ⟨rest', rfl⟩ := readSecret_eq_ok_iff.1 hopened
      exact ⟨opened, rest, rest', rfl, rfl⟩
  · rintro ⟨opened, rest, rest', rfl, rfl⟩
    have hverdict : verdict tape.secret.1 (commitment opened other) other
        (readSecret phase (.ok (Codec.byte.encodeList opened.bytes ++ rest'))) =
          .ok (tape.secret.1.xor opened) :=
      verdict_eq_ok_iff.2 ⟨opened, readSecret_encodeList .., rfl, rfl⟩
    rw [← hverdict]
    exact .opened (readCommitment_encodeList ..) _

/-- What a toss gives when it is played by a script. -/
theorem play_toss_eq_ok_iff {script : Script} {seed : Seed} :
    (((toss own other phase).start tape).play script).1.1 = .ok seed ↔
      script.sendsLeft ≠ some 0 ∧ script.sendsLeft ≠ some 1 ∧ ∃ opened rest rest' more,
        script.incoming other =
          (Codec.word256.encodeList [commitment opened other] ++ rest) ::
            (Codec.byte.encodeList opened.bytes ++ rest') :: more ∧
        seed = tape.secret.1.xor opened := by
  rw [start_toss, Process.play, Script.send]
  by_cases hfirst : script.sendsLeft = some 0
  · rw [if_pos hfirst]
    exact iff_of_false (fun h => nomatch h) fun h => h.1 hfirst
  rw [if_neg hfirst]
  simp only [Process.play, Script.receive, hfirst, not_false_eq_true, ne_eq, true_and]
  cases hincoming : script.incoming other with
  | nil => exact iff_of_false (fun h => nomatch h) fun ⟨_, _, _, _, _, h, _⟩ => nomatch h
  | cons message messages =>
    simp only
    cases hread : readCommitment phase (.ok message) with
    | error e =>
      refine iff_of_false (fun h => nomatch h) ?_
      rintro ⟨-, opened, rest, rest', more, heq, -⟩
      cases heq
      rw [readCommitment_encodeList] at hread
      cases hread
    | ok theirs =>
      simp only [Process.play, Script.send]
      by_cases hsecond : script.sendsLeft = some 1
      · rw [if_pos (by rw [hsecond]; rfl)]
        exact iff_of_false (fun h => nomatch h) fun h => h.1 hsecond
      · have hleft : script.sendsLeft.map (· - 1) ≠ some 0 := by
          intro h
          obtain ⟨n, hn, hzero⟩ := Option.map_eq_some_iff.1 h
          have hcases : n = 0 ∨ n = 1 := by omega
          rcases hcases with rfl | rfl
          · exact hfirst hn
          · exact hsecond hn
        rw [if_neg hleft]
        simp only [Script.receive, if_true, Process.play, hsecond, not_false_eq_true, true_and]
        cases messages with
        | nil => exact iff_of_false (fun h => nomatch h) fun ⟨_, _, _, _, h, _⟩ => nomatch h
        | cons message' messages =>
          rw [verdict_eq_ok_iff]
          constructor
          · rintro ⟨opened, hopened, rfl, rfl⟩
            obtain ⟨rest, hmessage⟩ := readCommitment_eq_ok_iff.1 hread
            obtain ⟨rest', hmessage'⟩ := readSecret_eq_ok_iff.1 hopened
            cases hmessage
            cases hmessage'
            exact ⟨opened, rest, rest', messages, rfl, rfl⟩
          · rintro ⟨opened, rest, rest', more, heq, rfl⟩
            cases heq
            rw [readCommitment_encodeList] at hread
            exact ⟨opened, readSecret_encodeList .., Except.ok.inj hread, rfl⟩

/-! ### What a peer can do -/

/-- What a commitment is the digest of. -/
def opening (secret : Word256) (party : Nat) : Bytes :=
  secret.bytes ++ (LittleEndian.encode 2 party).reverse

/-- Two different openings have the same digest. -/
structure Collide (a b : Bytes) : Prop where
  ne : a ≠ b
  length_left : a.length = 34
  length_right : b.length = 34
  digest_eq : Blake3.digest a = Blake3.digest b

theorem length_opening (secret : Word256) (party : Nat) : (opening secret party).length = 34 := by
  rw [opening, List.length_append, secret.length_bytes, List.length_reverse, LittleEndian.length_encode]

theorem opening_inj {secret secret' : Word256} {party party' : Nat}
    (h : opening secret party = opening secret' party') :
    secret = secret' ∧ party % 65536 = party' % 65536 := by
  obtain ⟨hsecret, hparty⟩ :=
    List.append_inj h (secret.length_bytes.trans secret'.length_bytes.symm)
  refine ⟨Word256.ext hsecret, ?_⟩
  have hencode := List.reverse_injective hparty
  simp only [LittleEndian.encode, List.cons.injEq, and_true] at hencode
  have hlow := congrArg UInt8.toNat hencode.1
  have hhigh := congrArg UInt8.toNat hencode.2
  simp only [UInt8.toNat_ofNat'] at hlow hhigh
  omega

theorem collide_of_commitment_eq {secret secret' : Word256} {party party' : Nat}
    (h : commitment secret party = commitment secret' party')
    (hne : secret ≠ secret' ∨ party % 65536 ≠ party' % 65536) :
    Collide (opening secret party) (opening secret' party') where
  ne heq := hne.elim (absurd (opening_inj heq).1) (absurd (opening_inj heq).2)
  length_left := length_opening ..
  length_right := length_opening ..
  digest_eq := h

theorem encodeList_commitment_ne (theirs secret : Word256) :
    Codec.word256.encodeList [theirs] ≠ Codec.byte.encodeList secret.bytes := by
  intro h
  have hhead := congrArg List.head? h
  rw [Codec.encodeList, Codec.encodeList, secret.length_bytes] at hhead
  exact absurd hhead (by simp [LittleEndian.encode])

/-- The messages of an end that a process has waited for, with failures. -/
def answers (source : Nat) (trace : Trace) : List Received :=
  trace.filterMap fun
    | .sent .. => none
    | .received source' r => if source' = source then some r else none

/-- The peer sends back what it is sent. -/
def echoed (own other : Nat) (phase : String) (secret : Word256) : Trace :=
  [.sent other phase (Codec.word256.encodeList [commitment secret own]) (.ok ()),
    .received other (.ok (Codec.word256.encodeList [commitment secret own])),
    .sent other phase (Codec.byte.encodeList secret.bytes) (.ok ()),
    .received other (.ok (Codec.byte.encodeList secret.bytes))]

/-- A peer that echoes what it is sent is rejected if its commitment would be another one. -/
theorem runs_echoed_iff (hne : commitment tape.secret.1 other ≠ commitment tape.secret.1 own)
    {result : Outcome TossError Seed} {tape' : Tape} :
    Runs (toss own other phase) tape (echoed own other phase tape.secret.1) result tape' ↔
      result = .error (.error (.notOpened other)) ∧ tape' = tape.secret.2 := by
  have hread : readCommitment phase (.ok (Codec.word256.encodeList [commitment tape.secret.1 own] ++ [])) =
      .ok (commitment tape.secret.1 own) := readCommitment_encodeList _ []
  have hsecret : readSecret phase (.ok (Codec.byte.encodeList tape.secret.1.bytes ++ [])) =
      .ok tape.secret.1 := readSecret_encodeList _ []
  rw [List.append_nil] at hread hsecret
  have hverdict : verdict tape.secret.1 (commitment tape.secret.1 own) other
      (readSecret phase (.ok (Codec.byte.encodeList tape.secret.1.bytes))) =
        .error (.error (.notOpened other)) := by
    rw [hsecret]
    exact if_neg hne
  rw [runs_toss_iff, and_congr_left_iff]
  rintro -
  constructor
  · intro h
    generalize htrace : echoed own other phase tape.secret.1 = trace at h
    cases h with
    | unsent failure => cases htrace
    | uncommitted h => cases htrace
    | unopened h failure => cases htrace
    | opened h r' =>
      cases htrace
      cases hread.symm.trans h
      exact hverdict
  · rintro rfl
    rw [← hverdict]
    exact .opened hread _

/-- No peer can do anything about a toss but take part in it honestly, or else it has found two openings
with the same digest. -/
structure Sound (own other : Nat) (phase : String) (tape : Tape) : Prop where
  /-- A seed is given just where both messages are sent, and the peer commits itself and opens what it has
  committed to. -/
  gives_iff (trace : Trace) (seed : Seed) (tape' : Tape) :
    Runs (toss own other phase) tape trace (.ok seed) tape' ↔
      tape' = tape.secret.2 ∧ ∃ opened rest rest',
        trace =
          [.sent other phase (Codec.word256.encodeList [commitment tape.secret.1 own]) (.ok ()),
            .received other (.ok (Codec.word256.encodeList [commitment opened other] ++ rest)),
            .sent other phase (Codec.byte.encodeList tape.secret.1.bytes) (.ok ()),
            .received other (.ok (Codec.byte.encodeList opened.bytes ++ rest'))] ∧
        seed = tape.secret.1.xor opened
  /-- The same where the messages of the peer are given beforehand, and links take a number of messages. -/
  plays_iff (script : Script) (seed : Seed) :
    (((toss own other phase).start tape).play script).1.1 = .ok seed ↔
      script.sendsLeft ≠ some 0 ∧ script.sendsLeft ≠ some 1 ∧ ∃ opened rest rest' more,
        script.incoming other =
          (Codec.word256.encodeList [commitment opened other] ++ rest) ::
            (Codec.byte.encodeList opened.bytes ++ rest') :: more ∧
        seed = tape.secret.1.xor opened
  /-- The own secret is not opened to a peer that has not committed itself. -/
  withholds (trace : Trace) (result : Outcome TossError Seed) (tape' : Tape) :
    Runs (toss own other phase) tape trace result tape' →
      (∀ theirs rest, (answers other trace).head? ≠
        some (.ok (Codec.word256.encodeList [theirs] ++ rest))) →
      ∀ target phase' answer,
        .sent target phase' (Codec.byte.encodeList tape.secret.1.bytes) answer ∉ trace
  /-- A peer that has committed itself to a secret gets no other one accepted. -/
  binds (trace : Trace) (seed : Seed) (tape' : Tape) (committed : Word256) (rest : Bytes) :
    Runs (toss own other phase) tape trace (.ok seed) tape' →
      (answers other trace).head? =
        some (.ok (Codec.word256.encodeList [commitment committed other] ++ rest)) →
      ∃ opened rest',
        (answers other trace)[1]? = some (.ok (Codec.byte.encodeList opened.bytes ++ rest')) ∧
        seed = tape.secret.1.xor opened ∧
        (opened = committed ∨ Collide (opening opened other) (opening committed other))
  /-- A peer that has another number cannot pass off the own commitment as its own. -/
  rejects_echo : own % 65536 ≠ other % 65536 →
    (∀ result tape', Runs (toss own other phase) tape (echoed own other phase tape.secret.1) result tape' ↔
      result = .error (.error (.notOpened other)) ∧ tape' = tape.secret.2) ∨
    Collide (opening tape.secret.1 other) (opening tape.secret.1 own)

theorem sound (own other : Nat) (phase : String) (tape : Tape) : Sound own other phase tape where
  gives_iff _ _ _ := runs_toss_ok_iff
  plays_iff _ _ := play_toss_eq_ok_iff
  withholds trace result tape' hrun hfirst target phase' answer hmem := by
    have hne := encodeList_commitment_ne (commitment tape.secret.1 own) tape.secret.1
    have huncommitted {r : Received} (hr : (answers other trace).head? = some r) (theirs : Word256) :
        readCommitment phase r ≠ .ok theirs := by
      intro h
      obtain ⟨rest, rfl⟩ := readCommitment_eq_ok_iff.1 h
      exact hfirst theirs rest hr
    obtain ⟨hrun, -⟩ := runs_toss_iff.1 hrun
    cases hrun with
    | unsent failure =>
      rw [List.mem_singleton, Exchange.sent.injEq] at hmem
      exact hne hmem.2.2.1.symm
    | uncommitted h =>
      rcases List.mem_cons.1 hmem with heq | hmem
      · rw [Exchange.sent.injEq] at heq
        exact hne heq.2.2.1.symm
      · exact nomatch List.mem_singleton.1 hmem
    | unopened h failure => exact huncommitted (by simp [answers]) _ h
    | opened h r' => exact huncommitted (by simp [answers]) _ h
  binds trace seed tape' committed rest hrun hfirst := by
    obtain ⟨-, opened, rest₁, rest', rfl, rfl⟩ := runs_toss_ok_iff.1 hrun
    refine ⟨opened, rest', by simp [answers], rfl, ?_⟩
    have hread : commitment opened other = commitment committed other := by
      simp only [answers, List.filterMap_cons, if_true, List.head?_cons, Option.some.injEq,
        Except.ok.injEq] at hfirst
      have hdecode := congrArg Codec.word256.decodeList? hfirst
      rw [Codec.decodeList?_encodeList _ (by rw [List.length_singleton]; decide),
        Codec.decodeList?_encodeList _ (by rw [List.length_singleton]; decide)] at hdecode
      exact List.head_eq_of_cons_eq (Option.some.inj hdecode)
    by_cases heq : opened = committed
    · exact .inl heq
    · exact .inr (collide_of_commitment_eq hread (.inl heq))
  rejects_echo hparties := by
    by_cases heq : commitment tape.secret.1 other = commitment tape.secret.1 own
    · exact .inr (collide_of_commitment_eq heq (.inr hparties.symm))
    · exact .inl fun result tape' => runs_echoed_iff heq

/-- A toss is sound against any peer, and two honest parties get the same seed in each of any number of
tosses. -/
theorem agree_on_seeds (own other : Nat) (phase : String) (tape : Tape) :
    Sound own other phase tape ∧
      ∀ (tape' : Tape) (ends count : Nat), own ≠ other → own < ends → other < ends →
        ∃ seeds : List Seed, seeds.length = count ∧
          Seat.Settles (tossSeats own other phase count tape tape', { parties := ends, capacity := 1024 })
            fun seats m =>
              seats.map (·.process) = [.done (seeds.map .ok), .done (seeds.map .ok)] ∧
                ∀ p q, m.queue p q = [] := by
  refine ⟨sound own other phase tape, fun tape' ends count hne hown hother => ?_⟩
  exact ⟨seeds tape tape' count, length_seeds .., settles_tosses hne hown hother phase count tape tape'⟩

/-- The tape of party 0. -/
def firstTape : Tape := .ofParty .zero 0

theorem agree_on_seeds_of_two :
    (∀ result tape', Runs (toss 0 1 "t") firstTape (echoed 0 1 "t" firstTape.secret.1) result tape' ↔
      result = .error (.error (.notOpened 1)) ∧ tape' = firstTape.secret.2) ∧
    (∃ trace, Runs (toss 0 1 "t") firstTape trace (.ok (firstTape.secret.1.xor .zero))
      firstTape.secret.2) ∧
    ∃ seeds : List Seed, seeds.length = 3 ∧
      Seat.Settles (tossSeats 0 1 "t" 3 firstTape (.ofParty .zero 1), { parties := 2, capacity := 1024 })
        fun seats m =>
          seats.map (·.process) = [.done (seeds.map .ok), .done (seeds.map .ok)] ∧
            ∀ p q, m.queue p q = [] := by
  obtain ⟨hsound, hrounds⟩ := agree_on_seeds 0 1 "t" firstTape
  have hdigests : Blake3.digest (opening firstTape.secret.1 1) ≠
      Blake3.digest (opening firstTape.secret.1 0) := by decide +kernel
  refine ⟨?_, ?_, hrounds (.ofParty .zero 1) 2 3 (by decide) (by decide) (by decide)⟩
  · exact (hsound.rejects_echo (by decide)).resolve_right fun h => hdigests h.digest_eq
  · exact ⟨_, (hsound.gives_iff _ _ _).2 ⟨rfl, .zero, [], [], rfl, rfl⟩⟩

end ObliviousRouting.CoinToss
