import ObliviousRouting.Proofs.Keystream.Lawful
import ObliviousRouting.Proofs.Network.Alone
import ObliviousRouting.Proofs.Network.Queues
import ObliviousRouting.Proofs.Reveal.Learning

/-!
# What is asked for, and what is acted on

The choosing party asks with packed bits, and the serving party acts on what it unpacks. Both count the same rows
for a batch, so the bits that come out are those that went in, also where the last byte of a request is not
full. This needs nothing of the links but that requests come in as they were sent, from the first one on: the
offering party may do anything, and any message may be the last one.
-/

namespace ObliviousRouting

namespace Trace

/-- The messages handed to the link to an end, whether the link has taken them or not. -/
def handed (target : Nat) (trace : Trace) : List Bytes :=
  trace.filterMap fun
    | .sent target' _ message _ => if target' = target then some message else none
    | .received .. => none

/-- The messages of an end that have come in. -/
def taken (source : Nat) (trace : Trace) : List Bytes :=
  (answers source trace).filterMap Except.toOption

variable {place : Nat} {trace trace' : Trace}

theorem handed_append : handed place (trace ++ trace') = handed place trace ++ handed place trace' :=
  List.filterMap_append

theorem taken_append : taken place (trace ++ trace') = taken place trace ++ taken place trace' := by
  rw [taken, answers_append, List.filterMap_append]
  rfl

@[simp] theorem handed_sent (phase : String) (message : Bytes) (answer : Sent) :
    handed place [.sent place phase message answer] = [message] :=
  List.filterMap_cons_some (if_pos rfl)

@[simp] theorem taken_sent (target : Nat) (phase : String) (message : Bytes) (answer : Sent) :
    taken place [.sent target phase message answer] = [] := rfl

@[simp] theorem handed_received (source : Nat) (answer : Received) :
    handed place [.received source answer] = [] := rfl

@[simp] theorem taken_received_ok (message : Bytes) : taken place [.received place (.ok message)] = [message] := by
  rw [taken, answers_cons_self]
  rfl

@[simp] theorem taken_received_error (failure : ReceiveFailure) :
    taken place [.received place (.error failure)] = [] := by
  rw [taken, answers_cons_self]
  rfl

end Trace

open Bytes Trace Role

/-- What sends nothing hands nothing to a link. -/
theorem Process.Plays.handed_eq_nil {α : Type} {p : Process α} {trace : Trace} {a : α} (h : p.Plays trace a)
    (hp : p.SendsOnly fun _ _ _ => False) (target : Nat) : handed target trace = [] := by
  induction h with
  | done a => rfl
  | send r _ ih =>
    cases hp with
    | send hfalse _ => exact hfalse.elim
  | receive r _ ih =>
    cases hp with
    | receive hnext => exact ih (hnext r)
  | first r _ ih =>
    cases hp with
    | receiveEither hfirst _ => exact ih (hfirst r)
  | second r _ ih =>
    cases hp with
    | receiveEither _ hsecond => exact ih (hsecond r)

theorem Role.Ensures.of_silent {σ ε α : Type} {x : Role σ ε α} {s : σ}
    (h : SendsOnly (fun _ _ _ => False) x s) (target : Nat) :
    Ensures x s (fun trace _ _ => handed target trace = []) fun trace _ _ => handed target trace = [] := by
  intro trace result s' hrun
  have hnone := Process.Plays.handed_eq_nil hrun h target
  cases result with
  | ok a => exact hnone
  | error stop => exact hnone

namespace Reveal

variable {σ : Type} (choices flips : List Bool) (size : BatchSize)

/-- The requests for the first `m` batches. -/
def requests (m : Nat) : List Bytes := (List.range m).map (choicesMessage choices flips size)

variable {choices flips size} {pads : Pads} {n width : Nat}

theorem requests_succ (m : Nat) :
    requests choices flips size (m + 1) = requests choices flips size m ++ [choicesMessage choices flips size m] := by
  rw [requests, List.range_succ, List.map_append]
  rfl

theorem requests_prefix {k m : Nat} (h : k ≤ m) : requests choices flips size k <+: requests choices flips size m := by
  have htake : requests choices flips size k = (requests choices flips size m).take k := by
    rw [requests, requests, ← List.map_take, List.take_range, Nat.min_eq_left h]
  rw [htake]
  exact List.take_prefix ..

theorem unpack?_choicesMessage (hchoices : choices.length = n) (hflips : flips.length = n) (k : Nat) :
    Bits.unpack? (choicesMessage choices flips size k) (min (k * size.step + size.step) n - k * size.step) =
      some (size.batch (blindChoices choices flips) k) := by
  have hunpack := Bits.unpack?_pack (size.batch (blindChoices choices flips) k)
  rwa [length_batch_blindChoices hchoices hflips] at hunpack

/-! ### The choosing party -/

/-- The choosing party hands over the requests, and nothing else, however it ends. -/
theorem ensures_choose (x : Flips) (hchoices : choices.length = n) (hflips : (x n).length = n)
    (offering serving : Nat) (phase : String) (s : σ) :
    Ensures (choose x offering serving choices width size phase) s
      (fun trace _ _ => handed serving trace <+: requests choices (x n) size (size.count n))
      fun trace _ _ => handed serving trace <+: requests choices (x n) size (size.count n) := by
  simp only [choose, hchoices]
  refine Ensures.ofChecked_bind (fun _ _ => List.nil_prefix) fun chosen _ => ?_
  refine (Ensures.iterate (I := fun k before _ _ => handed serving before = requests choices (x n) size k)
    (E := fun trace _ _ => handed serving trace <+: requests choices (x n) size (size.count n)) rfl ?_).mono ?_
      fun _ _ _ h => h
  · intro k hk before chosen s hbefore
    have hstopped : handed serving (before ++ []) <+: requests choices (x n) size (size.count n) := by
      rw [List.append_nil, hbefore]
      exact requests_prefix (Nat.le_of_lt hk)
    refine Ensures.ofChecked_bind (fun _ _ => hstopped) fun range hrange => ?_
    have hspan := BatchSize.eq_of_range hrange
    subst hspan
    refine Ensures.ofChecked_bind (fun _ _ => hstopped) fun length hlength => ?_
    simp only [BatchSize.part_eq_batch hchoices, BatchSize.part_eq_batch hflips, ← batch_blindChoices]
    have hasked (answer : Sent) : handed serving (before ++ [.sent serving phase
        (Bits.pack (size.batch (blindChoices choices (x n)) k)) answer]) = requests choices (x n) size (k + 1) := by
      rw [handed_append, handed_sent, hbefore, requests_succ, choicesMessage]
    have hasked' (answer : Sent) : handed serving (before ++ [.sent serving phase
        (Bits.pack (size.batch (blindChoices choices (x n)) k)) answer]) <+:
          requests choices (x n) size (size.count n) := by
      rw [hasked]
      exact requests_prefix hk
    refine Ensures.bind (Q := fun trace _ _ => handed serving (before ++ trace) =
      requests choices (x n) size (k + 1)) (Ensures.mapError (Ensures.sendBytes (hasked _) fun _ => hasked' _))
      fun sent _ s hsent => ?_
    -- what is left of a batch after the request sends nothing
    refine (Ensures.of_silent ?_ serving).mono (fun trace _ _ hnone => ?_) fun trace _ _ hnone => ?_
    · refine SendsOnly.bind_all (.mapError _ (.receiveBoth s)) fun answers s => ?_
      refine SendsOnly.ofChecked_bind fun both _ => ?_
      refine SendsOnly.ofExcept_bind fun _ _ => ?_
      exact SendsOnly.ofExcept_bind fun _ _ => .ofChecked _ s
    · rw [← List.append_assoc, handed_append, hnone, List.append_nil, hsent]
    · rw [← List.append_assoc, handed_append, hnone, List.append_nil, hsent]
      exact requests_prefix hk
  · intro trace _ _ h
    exact h ▸ List.prefix_refl _

/-! ### The serving party -/

/-- As far as the expected requests come in, they are answered one by one. -/
def Answers (chooser : Nat) (expected : List Bytes) (answer : Nat → Bytes) (trace : Trace) : Prop :=
  taken chooser trace <+: expected →
    handed chooser trace = (List.range (taken chooser trace).length).map answer

theorem eq_choicesMessage {m k : Nat} {messages : List Bytes} {request : Bytes}
    (h : messages <+: requests choices flips size m) (hk : messages[k]? = some request) :
    request = choicesMessage choices flips size k := by
  obtain ⟨hlt, hrequest⟩ := List.getElem?_eq_some_iff.1 hk
  have hget := List.prefix_iff_getElem?.1 h k hlt
  rw [hrequest, requests, List.getElem?_map] at hget
  obtain ⟨j, hj, heq⟩ := Option.map_eq_some_iff.1 hget
  obtain ⟨hj, hjk⟩ := List.getElem?_eq_some_iff.1 hj
  rw [← heq, ← hjk, List.getElem_range]

namespace Answers

variable {m chooser k : Nat} {answer : Nat → Bytes} {before : Trace} {request : Bytes}

/-- A request that comes in when the earlier ones are answered is the one for the next batch. -/
theorem next (h : Answers chooser (requests choices flips size m) answer before)
    (hlength : (taken chooser before).length = k)
    (hnext : taken chooser before ++ [request] <+: requests choices flips size m) :
    request = choicesMessage choices flips size k ∧ handed chooser before = (List.range k).map answer := by
  refine ⟨eq_choicesMessage hnext ?_, ?_⟩
  · rw [← hlength, List.getElem?_concat_length]
  · rw [← hlength]
    exact h ((List.prefix_append _ _).trans hnext)

theorem taken_answered (before : Trace) (request message : Bytes) (phase : String) (r : Sent) :
    taken chooser (before ++ ([.received chooser (.ok request)] ++ [.sent chooser phase message r])) =
      taken chooser before ++ [request] := by
  rw [taken_append, taken_append, taken_received_ok, taken_sent, List.append_nil]

/-- The next request is answered. -/
theorem answered (h : Answers chooser (requests choices flips size m) answer before)
    (hlength : (taken chooser before).length = k) {message : Bytes}
    (hanswer : request = choicesMessage choices flips size k → message = answer k) (phase : String) (r : Sent) :
    Answers chooser (requests choices flips size m) answer
      (before ++ ([.received chooser (.ok request)] ++ [.sent chooser phase message r])) := by
  intro hall
  rw [taken_answered] at hall ⊢
  obtain ⟨hrequest, hhanded⟩ := h.next hlength hall
  rw [handed_append, handed_append, handed_received, List.nil_append, handed_sent, hhanded, hanswer hrequest,
    List.length_append, hlength, List.length_singleton, List.range_succ, List.map_append]
  rfl

/-- Nothing comes in, and a wait is given up. -/
theorem waited (h : Answers chooser (requests choices flips size m) answer before) (failure : ReceiveFailure) :
    Answers chooser (requests choices flips size m) answer (before ++ [.received chooser (.error failure)]) := by
  rw [Answers, taken_append, taken_received_error, handed_append, handed_received, List.append_nil,
    List.append_nil]
  exact h

end Answers

theorem ensures_serve (pads : Pads) (hchoices : choices.length = n) (hflips : flips.length = n) (chooser : Nat)
    (phase : String) (s : σ) :
    Ensures (serve pads chooser n width size phase) s
      (fun trace _ _ => Answers chooser (requests choices flips size (size.count n))
        (padsMessage choices flips pads n width size) trace)
      fun trace stop _ => Answers chooser (requests choices flips size (size.count n))
        (padsMessage choices flips pads n width size) trace ∧
          (taken chooser trace <+: requests choices flips size (size.count n) →
            ∀ expected actual, stop ≠ .error (.unexpectedLength expected actual)) := by
  refine (Ensures.iterate (I := fun k before _ _ => (taken chooser before).length = k ∧
    Answers chooser (requests choices flips size (size.count n)) (padsMessage choices flips pads n width size) before)
    ⟨rfl, fun _ => rfl⟩ ?_).mono (fun _ _ _ h => h.2) fun _ _ _ h => h
  intro k hk before _ s hinv
  obtain ⟨hlength, hbefore⟩ := hinv
  have hfault (fault : Fault) : Answers chooser (requests choices flips size (size.count n))
      (padsMessage choices flips pads n width size) (before ++ []) ∧
      (taken chooser (before ++ []) <+: requests choices flips size (size.count n) →
        ∀ expected actual, Stop.fault fault ≠ .error (RevealError.unexpectedLength expected actual)) := by
    rw [List.append_nil]
    exact ⟨hbefore, fun _ _ _ => Stop.fault_ne_error⟩
  refine Ensures.ofChecked_bind (fun fault _ => hfault fault) fun range hrange => ?_
  have hspan := BatchSize.eq_of_range hrange
  subst hspan
  refine Ensures.ofChecked_bind (fun fault _ => hfault fault) fun length hmul => ?_
  have hbytes : length = batchLength n width size k := Size.eq_of_mul hmul
  subst hbytes
  refine Ensures.ofChecked_bind (fun fault _ => hfault fault) fun _ _ => ?_
  refine Ensures.bind (Q := fun trace request _ => trace = [.received chooser (.ok request)])
    (Ensures.mapError (Ensures.receiveBytes (fun _ => rfl) fun failure =>
      ⟨hbefore.waited failure, fun _ _ _ heq => nomatch heq⟩)) fun received request s hreceived => ?_
  subst hreceived
  cases hunpack : Bits.unpack? request (min (k * size.step + size.step) n - k * size.step) with
  | none =>
    -- the expected request can be unpacked
    have hbad : ¬ taken chooser (before ++ ([.received chooser (.ok request)] ++ [])) <+:
        requests choices flips size (size.count n) := by
      intro h
      rw [List.append_nil, taken_append, taken_received_ok] at h
      rw [(hbefore.next hlength h).1, unpack?_choicesMessage hchoices hflips] at hunpack
      cases hunpack
    exact Ensures.fail ⟨fun h => absurd h hbad, fun h => absurd h hbad⟩
  | some blinded =>
    have hanswer : request = choicesMessage choices flips size k →
        chosenPads blinded (batchPads pads n width size k).1 (batchPads pads n width size k).2 width =
          padsMessage choices flips pads n width size k := by
      intro hrequest
      rw [hrequest, unpack?_choicesMessage hchoices hflips, Option.some.injEq] at hunpack
      rw [← hunpack, padsMessage]
    have hanswers (r : Sent) := hbefore.answered hlength hanswer phase r
    refine Ensures.mapError (Ensures.sendBytes ⟨?_, hanswers _⟩ fun failure => ⟨hanswers _, fun _ _ _ heq => ?_⟩)
    · rw [Answers.taken_answered, List.length_append, hlength, List.length_singleton]
    · cases heq

/-! ### Both together -/

/-- What the serving party has done with the requests for blinded choices that came in. -/
structure ActsOn (choices flips : List Bool) (pads : Pads) (width : Nat) (size : BatchSize) (chooser : Nat)
    (trace : Trace) (result : Outcome RevealError Unit) : Prop where
  unpacks : ∀ (k : Nat) (request : Bytes), (taken chooser trace)[k]? = some request →
    Bits.unpack? request (size.batch choices k).length = some (size.batch (blindChoices choices flips) k)
  answers : handed chooser trace = (List.range (taken chooser trace).length).map
    (padsMessage choices flips pads choices.length width size)
  /-- In each row of an answer a bit that is set picks the row of the second string of pads, and one that is
  not set that of the first string. -/
  picks : ∀ (k : Nat) (message : Bytes), (handed chooser trace)[k]? = some message →
    ∀ (i : Nat) (bit : Bool) (row₀ row₁ : Bytes), (size.batch (blindChoices choices flips) k)[i]? = some bit →
      ((batchPads pads choices.length width size k).1.chunks (max width 1))[i]? = some row₀ →
      ((batchPads pads choices.length width size k).2.chunks (max width 1))[i]? = some row₁ →
      (message.chunks (max width 1))[i]? = some (if bit then row₁ else row₀)
  /-- No request is rejected. -/
  accepts : ∀ expected actual, result ≠ .error (.error (.unexpectedLength expected actual))

/-- Bits come back from the bytes they are packed into, and what is unpacked packs into the same bytes, up to
the places that are not used. So a serving party that gets the requests of a choosing one, or the first of
them, unpacks the blinded choices of each batch and answers with the pads that belong to them. -/
theorem acts_on_blinded_choices :
    (∀ bits : List Bool, Bits.unpack? (Bits.pack bits) bits.length = some bits) ∧
    (∀ (bytes : Bytes) (n : Nat), ((Bits.unpack? bytes n).isSome ↔ bytes.length = (n + 7) / 8) ∧
      ∀ bits, Bits.unpack? bytes n = some bits →
        bits.length = n ∧ Bits.pack bits = Bits.clearUnused n bytes) ∧
    ∀ {σ τ : Type} (flips : Seed) (pads : Pads) (choices : List Bool) (width : Nat) (size : BatchSize)
      (offering serving chooser : Nat) (phase : String) (s s' : σ) (t t' : τ) (asking answering : Trace)
      (learned : Outcome RevealError RowBuffer) (result : Outcome RevealError Unit),
      Runs (choose (.ofSeed flips) offering serving choices width size phase) s asking learned s' →
      Runs (serve pads chooser choices.length width size phase) t answering result t' →
      taken chooser answering <+: handed serving asking →
      ActsOn choices (Flips.ofSeed flips choices.length) pads width size chooser answering result := by
  refine ⟨Bits.unpack?_pack, fun bytes n => ⟨Bits.isSome_unpack? bytes n, fun _ => Bits.pack_of_unpack?⟩, ?_⟩
  intro σ τ flips pads choices width size offering serving chooser phase s s' t t' asking answering learned
    result hchoose hserve hlink
  have hflips : (Flips.ofSeed flips choices.length).length = choices.length := Keystream.length_bits ..
  have hasked := ensures_choose (.ofSeed flips) rfl hflips offering serving phase s asking learned s' hchoose
  have hserved := ensures_serve pads rfl hflips chooser phase t answering result t' hserve
  have htaken : taken chooser answering <+:
      requests choices (Flips.ofSeed flips choices.length) size (size.count choices.length) := by
    cases learned with
    | ok chosen => exact hlink.trans hasked
    | error stop => exact hlink.trans hasked
  have hanswers : handed chooser answering = (List.range (taken chooser answering).length).map
      (padsMessage choices (Flips.ofSeed flips choices.length) pads choices.length width size) := by
    cases result with
    | ok _ => exact hserved htaken
    | error stop => exact hserved.1 htaken
  refine ⟨?_, hanswers, ?_, ?_⟩
  · intro k request hrequest
    rw [eq_choicesMessage htaken hrequest, BatchSize.length_batch_eq rfl]
    exact unpack?_choicesMessage rfl hflips k
  · intro k message hmessage i bit row₀ row₁ hbit hrow₀ hrow₁
    rw [hanswers, List.getElem?_map] at hmessage
    obtain ⟨j, hj, rfl⟩ := Option.map_eq_some_iff.1 hmessage
    obtain ⟨hlt, hjk⟩ := List.getElem?_eq_some_iff.1 hj
    rw [List.getElem_range] at hjk
    subst hjk
    rw [padsMessage, chosenPads, chunks_select]
    exact getElem?_pick hbit hrow₀ hrow₁
  · cases result with
    | ok _ =>
      intro expected actual heq
      cases heq
    | error stop => exact fun expected actual heq => hserved.2 htaken expected actual (Except.error.inj heq)

/-- Three choices in two batches, the second one of a single bit. -/
theorem acts_on_blinded_choices_of_three : ∃ (asking answering : Trace) (learned : Outcome RevealError RowBuffer)
    (result : Outcome RevealError Unit),
    Runs (choose (.ofSeed .zero) 2 1 [true, false, true] 1 ⟨2⟩ "t") () asking learned () ∧
      Runs (serve (.ofSeed .zero) 0 3 1 ⟨2⟩ "t") () answering result () ∧
      taken 0 answering <+: handed 1 asking ∧ (taken 0 answering).length = 2 ∧
      ActsOn [true, false, true] (Flips.ofSeed .zero 3) (.ofSeed .zero) 1 ⟨2⟩ 0 answering result := by
  have hflips : (Flips.ofSeed .zero 3).length = 3 := Keystream.length_bits ..
  have hfits : BatchSize.Fits ⟨2⟩ 3 := ⟨by decide, by decide⟩
  have hlt : 3 * 1 < Size.bufferLimit := by decide
  have hchoices : [true, false, true].length = 3 := rfl
  have hn : List.length ([[1], [2], [3]] : List Bytes) = 3 := rfl
  have hn' : List.length ([[4], [5], [6]] : List Bytes) = 3 := rfl
  have hrows : Uniform 1 [[1], [2], [3]] := by simp [Uniform]
  have hrows' : Uniform 1 [[4], [5], [6]] := by simp [Uniform]
  have hchoose : Performs (choose (.ofSeed .zero) 2 1 [true, false, true] 1 ⟨2⟩ "t") ()
      (chooseCourse [true, false, true] (Flips.ofSeed .zero 3) (.ofSeed .zero) [[1], [2], [3]] [[4], [5], [6]] 3 1
        ⟨2⟩ 2 1 "t") _ () :=
    performs_choose _ hchoices hflips (Pads.cover_ofSeed .zero 3 1 ⟨2⟩) hn hn' hrows hrows' (.inr Nat.one_pos) hlt
      hfits 2 1 "t" ()
  have hserve : Performs (serve (.ofSeed .zero) 0 3 1 ⟨2⟩ "t") ()
      (serveCourse [true, false, true] (Flips.ofSeed .zero 3) (.ofSeed .zero) 3 1 ⟨2⟩ 0 "t") () () :=
    performs_serve _ hchoices hflips hlt hfits 0 "t" ()
  -- all that is asked for comes in
  have hlink : taken 0 ((serveCourse [true, false, true] (Flips.ofSeed .zero 3) (.ofSeed .zero) 3 1 ⟨2⟩ 0
      "t").flatMap Action.exchanges) <+: handed 1 ((chooseCourse [true, false, true] (Flips.ofSeed .zero 3)
        (.ofSeed .zero) [[1], [2], [3]] [[4], [5], [6]] 3 1 ⟨2⟩ 2 1 "t").flatMap Action.exchanges) :=
    List.prefix_refl (requests [true, false, true] (Flips.ofSeed .zero 3) ⟨2⟩ 2)
  exact ⟨_, _, _, _, hchoose.plays, hserve.plays, hlink, rfl,
    acts_on_blinded_choices.2.2 _ _ _ _ _ _ _ _ _ _ _ _ _ _ _ _ _ hchoose.plays hserve.plays hlink⟩

end Reveal

end ObliviousRouting
