import ObliviousRouting.Proofs.Network.Traces
import ObliviousRouting.Proofs.Pass.Costs
import ObliviousRouting.Proofs.Wire.Codec

/-!
# What a pass leaves when it fails

A router that has checked its targets can only fail to hand over a batch. A collector checks a batch as a
whole before it writes any of it, so what it leaves when it fails are the batches that came in before, the
first one up to some number of them, each placed completely.
-/

namespace ObliviousRouting

open Role

namespace Process

variable {α β ε : Type}

/-- At most one answer of each of two ends, in either order. -/
def AtMostOne (first second : Nat) (trace : Trace) : Prop :=
  ∃ r₁ r₂, trace.Sublist [.received first r₁, .received second r₂] ∨
    trace.Sublist [.received second r₂, .received first r₁]

theorem AtMostOne.length_le {first second : Nat} {trace : Trace} (h : AtMostOne first second trace) :
    trace.length ≤ 2 := by
  obtain ⟨r₁, r₂, h | h⟩ := h
  · exact h.length_le
  · exact h.length_le

/-- Two messages have come in, in either order, and both could be read, or the wait was over with an answer
that could not be read. -/
theorem Plays.of_receiveBoth {first second : Nat} {readFirst : Received → Except ε α}
    {readSecond : Received → Except ε β} {trace : Trace} {r : Except ε (α × β)}
    (h : (receiveBoth first second readFirst readSecond).Plays trace r) :
    (∃ r₁ r₂ a b, r = .ok (a, b) ∧ readFirst r₁ = .ok a ∧ readSecond r₂ = .ok b ∧
      (trace = [.received first r₁, .received second r₂] ∨
        trace = [.received second r₂, .received first r₁])) ∨
      (∃ e, r = .error e) ∧ AtMostOne first second trace ∧
        ((∃ r₁ e, .received first r₁ ∈ trace ∧ readFirst r₁ = .error e) ∨
          ∃ r₂ e, .received second r₂ ∈ trace ∧ readSecond r₂ = .error e) := by
  cases h with
  | first r₁ h =>
    cases h₁ : readFirst r₁ with
    | error e =>
      simp only [h₁] at h
      obtain ⟨rfl, rfl⟩ := h.of_done
      have honce : AtMostOne first second [.received first r₁] := ⟨r₁, r₁, .inl (by simp)⟩
      exact .inr ⟨⟨e, rfl⟩, honce, .inl ⟨r₁, e, List.mem_singleton_self _, h₁⟩⟩
    | ok a =>
      simp only [h₁] at h
      cases h with
      | receive r₂ h =>
        obtain ⟨rfl, rfl⟩ := h.of_done
        cases h₂ : readSecond r₂ with
        | error e =>
          have honce : AtMostOne first second [.received first r₁, .received second r₂] :=
            ⟨r₁, r₂, .inl (.refl _)⟩
          exact .inr ⟨⟨e, rfl⟩, honce, .inr ⟨r₂, e, by simp, h₂⟩⟩
        | ok b => exact .inl ⟨r₁, r₂, a, b, rfl, h₁, h₂, .inl rfl⟩
  | second r₂ h =>
    cases h₂ : readSecond r₂ with
    | error e =>
      simp only [h₂] at h
      obtain ⟨rfl, rfl⟩ := h.of_done
      have honce : AtMostOne first second [.received second r₂] := ⟨r₂, r₂, .inr (by simp)⟩
      exact .inr ⟨⟨e, rfl⟩, honce, .inr ⟨r₂, e, List.mem_singleton_self _, h₂⟩⟩
    | ok b =>
      simp only [h₂] at h
      cases h with
      | receive r₁ h =>
        obtain ⟨rfl, rfl⟩ := h.of_done
        cases h₁ : readFirst r₁ with
        | error e =>
          have honce : AtMostOne first second [.received second r₂, .received first r₁] :=
            ⟨r₁, r₂, .inr (.refl _)⟩
          exact .inr ⟨⟨e, rfl⟩, honce, .inl ⟨r₁, e, by simp, h₁⟩⟩
        | ok a => exact .inl ⟨r₁, r₂, a, b, rfl, h₁, h₂, .inr rfl⟩

end Process

namespace Pass

variable {mode : Mode} {size : BatchSize}

/-! ### The router -/

/-- Batches have been handed over. -/
def HandedOver (collector : Nat) (phase : String) (trace : Trace) : Prop :=
  ∀ exchange ∈ trace, ∃ message, exchange = .sent collector phase message (.ok ())

/-- Batches have been handed over, and the next one has been refused. -/
def Refused (collector : Nat) (phase : String) (failure : SendFailure) (trace : Trace) : Prop :=
  ∃ sent message, HandedOver collector phase sent ∧
    trace = sent ++ [.sent collector phase message (.error failure)]

/-- A router fails because of its targets, before it does anything, or when it is refused a batch. -/
def RouteFailure (collector : Nat) (targets : List Target) (phase : String) (dest : RowBuffer)
    (trace : Trace) (e : PassError) (dest' : RowBuffer) : Prop :=
  (checkRows targets.length = .error e ∨ checkTargets targets dest.size = .error e) ∧ trace = [] ∧
      dest' = dest ∨
    ∃ failure, e = .link ⟨phase, .notSent failure⟩ ∧ Refused collector phase failure trace

theorem ensures_route (blinding : Blinding) (collector : Nat) (targets : List Target) (phase : String)
    (dest : RowBuffer) :
    Ensures (route blinding collector targets mode size phase) dest
      (fun _ _ _ => targets.length < Target.rowLimit) fun trace stop dest' =>
        ∀ e, stop = .error e → RouteFailure collector targets phase dest trace e dest' := by
  simp only [route]
  refine Ensures.ofExcept_bind (fun e he e' heq => ?_) fun _ hrows => ?_
  · cases heq
    exact .inl ⟨.inl he, rfl, rfl⟩
  refine Ensures.bind_nil (Performs.get dest) ?_
  refine Ensures.ofExcept_bind (fun e he e' heq => ?_) fun _ _ => ?_
  · cases heq
    exact .inl ⟨.inr he, rfl, rfl⟩
  split
  next =>
    refine Ensures.ofChecked_bind (fun _ _ _ heq => absurd heq Stop.fault_ne_error) fun _ _ => ?_
    refine Ensures.bind (Q := fun _ _ _ => True) ?_ fun _ _ _ _ => Ensures.pure (lt_of_checkRows hrows)
    refine Ensures.mono (Ensures.iterate (I := fun _ before _ _ => HandedOver collector phase before)
      (List.forall_mem_nil _) ?_) (fun _ _ _ _ => trivial) fun _ _ _ h => h
    intro k _ before rest current hbefore
    refine Ensures.ofChecked_bind (fun _ _ _ heq => absurd heq Stop.fault_ne_error) fun _ _ => ?_
    refine Ensures.ofChecked_bind (fun _ _ _ heq => absurd heq Stop.fault_ne_error) fun _ _ => ?_
    refine Ensures.bind_nil (Performs.get _) ?_
    refine Ensures.ofChecked_bind (fun _ _ _ heq => absurd heq Stop.fault_ne_error) fun _ _ => ?_
    refine Ensures.bind_nil (Performs.set _ _) ?_
    refine Ensures.bind (Q := fun trace _ _ => HandedOver collector phase (before ++ trace))
      (Ensures.mapError (Ensures.sendBytes ?_ ?_)) fun trace _ _ htrace => ?_
    · exact List.forall_mem_append.2 ⟨hbefore, List.forall_mem_singleton.2 ⟨_, rfl⟩⟩
    · intro failure e heq
      cases heq
      exact .inr ⟨failure, rfl, before, _, hbefore, rfl⟩
    · apply Ensures.pure
      rwa [List.append_nil]
  next =>
    exact Ensures.bind (Ensures.throw (Q := fun _ _ _ => False) fun _ heq => absurd heq Stop.fault_ne_error)
      fun _ _ _ hfalse => hfalse.elim

/-! ### The collector -/

/-- Whatever is placed in a buffer, it has as many rows as before. -/
theorem alike_of_place {b c : RowBuffer} {pairs : List (Target × Bytes)} (h : place mode b pairs = .ok c) :
    c.Alike b := by
  induction pairs generalizing b with
  | nil =>
    cases h
    exact .refl c
  | cons pair pairs ih =>
    obtain ⟨t, share⟩ := pair
    rw [place] at h
    cases hrow : t.row? with
    | none =>
      rw [hrow] at h
      exact ih h
    | some d =>
      rw [hrow] at h
      obtain ⟨b', hwrite, h⟩ := Checked.of_bind h
      exact (ih h).trans (.of_write hwrite)

/-- The two messages of a batch, and which of them came first. -/
structure Arrival where
  rows : Bytes
  targets : List Target
  /-- What follows the targets in the message of the router. -/
  rest : Bytes
  routerFirst : Bool

namespace Arrival

def trace (sender router : Nat) (a : Arrival) : Trace :=
  let rows := .received sender (.ok a.rows)
  let targets := .received router (.ok (Target.codec.encodeList a.targets ++ a.rest))
  if a.routerFirst then [targets, rows] else [rows, targets]

theorem atMostOne_trace (sender router : Nat) (a : Arrival) :
    Process.AtMostOne sender router (a.trace sender router) := by
  refine ⟨.ok a.rows, .ok (Target.codec.encodeList a.targets ++ a.rest), ?_⟩
  rw [trace]
  split
  · exact .inr (.refl _)
  · exact .inl (.refl _)

/-- The rows of a batch, each with its target. -/
def pairs (stride : Nat) (a : Arrival) : List (Target × Bytes) := a.targets.zip (a.rows.chunks stride)

/-- A batch of `n` rows that a buffer has places for. -/
structure Fits (a : Arrival) (n : Nat) (dest : RowBuffer) : Prop where
  length_targets : a.targets.length = n
  length_rows : a.rows.length = n * dest.stride
  stride_pos : 0 < dest.stride
  within : Within a.targets dest.size

end Arrival

/-- The number of rows in batch `k` of `rows` rows. -/
def batchRows (size : BatchSize) (rows k : Nat) : Nat := min size.step (rows - k * size.step)

theorem range_sub_of_ok {rows k : Nat} {range : Nat × Nat} (h : size.range rows k = .ok range) :
    range.2 - range.1 = batchRows size rows k := by
  obtain ⟨stop, hstop, h⟩ := Checked.of_bind h
  cases h
  change min stop rows - k * size.step = min size.step (rows - k * size.step)
  rw [Size.eq_of_add hstop]
  omega

/-- A buffer is as batches have left it that came in one after the other, from the first one on. Each of
them was complete, and was placed completely. -/
structure Collected (mode : Mode) (size : BatchSize) (rows : Nat) (dest : RowBuffer)
    (arrivals : List Arrival) (dest' : RowBuffer) : Prop where
  fits (k : Nat) (a : Arrival) : arrivals[k]? = some a → a.Fits (batchRows size rows k) dest
  place_eq : place mode dest (arrivals.flatMap (Arrival.pairs dest.stride)) = .ok dest'

namespace Collected

variable {rows : Nat} {dest dest' dest'' : RowBuffer} {arrivals : List Arrival} {a : Arrival}

theorem nil (mode : Mode) (size : BatchSize) (rows : Nat) (dest : RowBuffer) :
    Collected mode size rows dest [] dest := ⟨fun _ _ h => (nomatch h), rfl⟩

theorem alike (h : Collected mode size rows dest arrivals dest') : dest'.Alike dest :=
  alike_of_place h.place_eq

theorem snoc (h : Collected mode size rows dest arrivals dest')
    (ha : a.Fits (batchRows size rows arrivals.length) dest)
    (hplace : place mode dest' (a.pairs dest.stride) = .ok dest'') :
    Collected mode size rows dest (arrivals ++ [a]) dest'' := by
  constructor
  · intro k b hb
    rw [List.getElem?_append] at hb
    split at hb
    next hk => exact h.fits k b hb
    next hk =>
      obtain ⟨hlast, rfl⟩ := List.getElem?_eq_some_iff.1 hb
      rw [List.length_singleton] at hlast
      have hk' : k = arrivals.length := by omega
      subst hk'
      simp only [Nat.sub_self, List.getElem_singleton]
      exact ha
  · rw [List.flatMap_append, place_append, h.place_eq, List.flatMap_singleton]
    exact hplace

end Collected

/-- What has come in of a batch makes no batch of `n` rows that a buffer has places for: no rows have come in,
or no list of targets, or the two do not fit. -/
def Rejected (sender router n : Nat) (dest : RowBuffer) (trace : Trace) : Prop :=
  (∃ failure, .received sender (.error failure) ∈ trace) ∨
    (∃ answer, .received router answer ∈ trace ∧
      ∀ message, answer = .ok message → Target.codec.decodeList? message = none) ∨
    ∃ a : Arrival, trace = a.trace sender router ∧ a.targets.length < Size.limit ∧ ¬ a.Fits n dest

/-- A collector that stops early has placed some leading batches. What has come in of the next one is at most
one answer of each end, and has been left out; if the number of rows is one that can be collected, it was no
batch. -/
def Incomplete (sender router : Nat) (mode : Mode) (size : BatchSize) (rows : Nat) (dest : RowBuffer)
    (trace : Trace) (dest' : RowBuffer) : Prop :=
  ∃ arrivals rest, arrivals.length < size.count rows ∧ Collected mode size rows dest arrivals dest' ∧
    trace = arrivals.flatMap (Arrival.trace sender router) ++ rest ∧ Process.AtMostOne sender router rest ∧
    (rows < Target.rowLimit → Rejected sender router (batchRows size rows arrivals.length) dest rest)

/-- The sizes of a buffer and of batches for it fit into 64 bits. -/
structure Sizable (size : BatchSize) (dest : RowBuffer) : Prop where
  dest_fits : dest.data.size < Size.bufferLimit
  rows_lt : size.rows < Size.limit
  batch_lt : size.step * dest.stride < Size.limit

/-- A collector stops with some batches still to come, or because sizes do not fit. -/
def CollectStop (sender router : Nat) (mode : Mode) (size : BatchSize) (rows : Nat) (dest : RowBuffer)
    (trace : Trace) (stop : Stop PassError) (dest' : RowBuffer) : Prop :=
  match stop with
  | .error _ => Incomplete sender router mode size rows dest trace dest'
  | .fault _ => ¬ Sizable size dest

theorem not_within_of_checkTargets {targets : List Target} {rows : Nat} {e : PassError}
    (h : checkTargets targets rows = .error e) : ¬ Within targets rows := by
  intro hwithin
  rw [checkTargets_eq_ok hwithin] at h
  cases h

/-- A message that was not read is none that could be. -/
theorem unread_of_read {phase : String} {message : Bytes} {e : LinkError}
    (h : (Received.bytes phase (.ok message) >>= Target.codec.read phase) = .error e) :
    Target.codec.decodeList? message = none := by
  rw [Received.bytes_ok_bind, Codec.read] at h
  cases hread : Target.codec.decodeList? message with
  | none => rfl
  | some l =>
    rw [hread] at h
    cases h

/-- The two messages of a batch come in, or what comes in is no batch. -/
theorem ensures_receiveBatch (sender router n : Nat) (phase : String) (dest current : RowBuffer) :
    Ensures (Role.mapError PassError.link (Role.ofProcess (Process.receiveBoth sender router
        (Received.bytes phase) fun r => Received.bytes phase r >>= Target.codec.read phase))) current
      (fun trace received current' => current = current' ∧ ∃ a : Arrival, received = (a.rows, a.targets) ∧
        trace = a.trace sender router ∧ a.targets.length < Size.limit)
      fun trace stop current' => current = current' ∧ (∃ e, stop = .error e) ∧
        Process.AtMostOne sender router trace ∧ Rejected sender router n dest trace := by
  refine Ensures.mapError (Ensures.ofProcess ?_)
  intro trace received hplays
  rcases hplays.of_receiveBoth with
    ⟨r₁, r₂, rows, targets, rfl, hfirst, hsecond, htrace⟩ | ⟨⟨e, rfl⟩, honce, hunread⟩
  · obtain ⟨hlt, rest, rfl⟩ := Codec.exact_target.receive_eq_ok_iff.1 hsecond
    cases r₁ with
    | error failure => cases hfirst
    | ok message =>
      cases hfirst
      refine ⟨rfl, ?_⟩
      rcases htrace with rfl | rfl
      · exact ⟨⟨rows, targets, rest, false⟩, rfl, rfl, hlt⟩
      · exact ⟨⟨rows, targets, rest, true⟩, rfl, rfl, hlt⟩
  · refine ⟨rfl, ⟨_, rfl⟩, honce, ?_⟩
    rcases hunread with ⟨r₁, e, hmem, hread⟩ | ⟨r₂, e, hmem, hread⟩
    · cases r₁ with
      | error failure => exact .inl ⟨failure, hmem⟩
      | ok message => cases hread
    · refine .inr (.inl ⟨r₂, hmem, fun message heq => ?_⟩)
      subst heq
      exact unread_of_read hread

/-- Why a batch of `n` rows is left out. -/
def Arrival.Misfit (a : Arrival) (size : BatchSize) (n : Nat) (dest : RowBuffer) : Stop PassError → Prop
  | .error _ => ¬ a.Fits n dest
  | .fault _ => ¬ Sizable size dest

/-- A batch is placed completely, or it is left out because it does not fit. -/
theorem ensures_placeBatch (a : Arrival) {n : Nat} {dest current : RowBuffer} (hlike : current.Alike dest)
    (hn : n ≤ size.step) :
    Ensures (placeBatch mode n a.rows a.targets) current
      (fun trace _ dest' => trace = [] ∧ a.Fits n dest ∧ place mode current (a.pairs dest.stride) = .ok dest')
      fun trace stop current' => trace = [] ∧ current' = current ∧ a.Misfit size n dest stop := by
  simp only [placeBatch]
  refine Ensures.bind_nil (Performs.get _) ?_
  rw [hlike.stride_eq, hlike.size_eq]
  split
  next hmatch =>
    refine Ensures.fail_bind ⟨rfl, rfl, fun hfits => ?_⟩
    rcases hmatch with hzero | hne
    · exact Nat.ne_of_gt hfits.stride_pos hzero
    · exact hne hfits.length_targets
  next hmatch =>
  obtain ⟨hstride, hcount⟩ := not_or.1 hmatch
  rw [not_not] at hcount
  refine Ensures.ofChecked_bind (fun fault hfault => ⟨rfl, rfl, fun hsizable => ?_⟩) fun expected hexpected => ?_
  · have hle : a.targets.length * dest.stride ≤ size.step * dest.stride := Nat.mul_le_mul_right _ (hcount ▸ hn)
    rw [Size.mul_eq_ok (Nat.lt_of_le_of_lt hle hsizable.batch_lt)] at hfault
    cases hfault
  have hproduct := Size.eq_of_mul hexpected
  split
  next hbytes =>
    refine Ensures.fail_bind ⟨rfl, rfl, fun hfits => hbytes ?_⟩
    rw [hproduct, hfits.length_targets, hfits.length_rows]
  next hbytes =>
  rw [not_not] at hbytes
  refine Ensures.ofExcept_bind (fun e he => ⟨rfl, rfl, fun hfits => ?_⟩) fun _ hchecked => ?_
  · exact not_within_of_checkTargets he hfits.within
  have hwithin := within_of_checkTargets hchecked
  refine Ensures.ofChecked_bind (fun fault hfault => ⟨rfl, rfl, fun hsizable => ?_⟩) fun placed hplace => ?_
  · have hcurrent : current.Shaped dest.size dest.stride :=
      ⟨hlike.stride_eq, hlike.data_size_eq.trans dest.size_mul_stride.symm,
        (RowBuffer.shaped_of_fits hsizable.dest_fits).fits⟩
    obtain ⟨next, hnext, -⟩ := place_zip_of_shaped mode hcurrent dest.size_eq_zero_or_pos hwithin
      (Bytes.uniform_chunks a.rows)
    rw [hnext] at hfault
    cases hfault
  have hlength := hbytes.symm.trans hproduct
  rw [hcount] at hlength
  exact Ensures.of_performs (Performs.set _ _)
    ⟨rfl, ⟨hcount, hlength, Nat.pos_of_ne_zero hstride, hwithin⟩, hplace⟩

/-- If there are too many rows, then none of them is waited for. -/
theorem incomplete_of_checkRows {rows : Nat} {e : PassError} (h : checkRows rows = .error e)
    (sender router : Nat) (dest : RowBuffer) : Incomplete sender router mode size rows dest [] dest := by
  have hrows : ¬ rows < Target.rowLimit := fun hlt => by
    rw [checkRows_eq_ok hlt] at h
    cases h
  have hpos : 0 < rows := Nat.lt_of_lt_of_le (by decide) (Nat.le_of_not_lt hrows)
  exact ⟨[], [], BatchSize.lt_count_iff.2 (by rwa [List.length_nil, Nat.zero_mul]), .nil .., rfl,
    ⟨.error .empty, .error .empty, .inl (List.nil_sublist _)⟩, fun hlt => absurd hlt hrows⟩

theorem ensures_collect_batches (sender router rows : Nat) (phase : String) (dest : RowBuffer) :
    Ensures (collect sender router rows mode size phase) dest
      (fun trace _ dest' => ∃ arrivals, arrivals.length = size.count rows ∧
        Collected mode size rows dest arrivals dest' ∧
        trace = arrivals.flatMap (Arrival.trace sender router))
      (CollectStop sender router mode size rows dest) := by
  rw [collect_eq]
  refine Ensures.ofExcept_bind (fun e he => incomplete_of_checkRows he ..) fun _ hcheck => ?_
  have hrows := lt_of_checkRows hcheck
  refine Ensures.iterate (I := fun k before _ dest' => ∃ arrivals, arrivals.length = k ∧
    Collected mode size rows dest arrivals dest' ∧
    before = arrivals.flatMap (Arrival.trace sender router)) ⟨[], rfl, .nil .., rfl⟩ ?_
  intro k hk before _ current hbefore
  obtain ⟨arrivals, rfl, hcollected, rfl⟩ := hbefore
  have hfailure {trace : Trace} (honce : Process.AtMostOne sender router trace)
      (hrejected : Rejected sender router (batchRows size rows arrivals.length) dest trace) :
      Incomplete sender router mode size rows dest (arrivals.flatMap (Arrival.trace sender router) ++ trace)
        current :=
    ⟨arrivals, trace, hk, hcollected, rfl, honce, fun _ => hrejected⟩
  refine Ensures.ofChecked_bind (fun fault hfault hsizable => ?_) fun range hrange => ?_
  · rw [BatchSize.range_eq_ok (Target.fits_of_lt hrows hsizable.rows_lt) hk] at hfault
    cases hfault
  refine Ensures.bind ((ensures_receiveBatch sender router (batchRows size rows arrivals.length) phase dest
    current).mono (fun _ _ _ h => h) fun trace stop current' h => ?_) fun trace received _ hreceived => ?_
  · obtain ⟨rfl, ⟨e, rfl⟩, honce, hrejected⟩ := h
    exact hfailure honce hrejected
  obtain ⟨rfl, a, rfl, rfl, hlt⟩ := hreceived
  change Ensures (placeBatch mode (range.2 - range.1) a.rows a.targets) current _ _
  rw [range_sub_of_ok hrange]
  refine (ensures_placeBatch a hcollected.alike (Nat.min_le_left ..)).mono ?_ ?_
  · intro trace _ dest' hplaced
    obtain ⟨rfl, hfits, hplace⟩ := hplaced
    refine ⟨arrivals ++ [a], List.length_append, hcollected.snoc hfits hplace, ?_⟩
    rw [List.append_nil, List.flatMap_append, List.flatMap_singleton]
  · intro trace stop current' hstopped
    obtain ⟨rfl, rfl, hmisfit⟩ := hstopped
    rw [List.append_nil]
    cases stop with
    | error e => exact hfailure (a.atMostOne_trace sender router) (.inr (.inr ⟨a, rfl, hlt, hmisfit⟩))
    | fault fault => exact hmisfit

/-- A collector that fails has placed some leading batches. What has come in of the next one is at most one
answer of each end, and has been left out. -/
def CollectFailure (sender router : Nat) (mode : Mode) (size : BatchSize) (rows : Nat) (dest : RowBuffer)
    (trace : Trace) (dest' : RowBuffer) : Prop :=
  ∃ arrivals rest, arrivals.length < size.count rows ∧ Collected mode size rows dest arrivals dest' ∧
    trace = arrivals.flatMap (Arrival.trace sender router) ++ rest ∧ rest.length ≤ 2

theorem ensures_collect (sender router rows : Nat) (phase : String) (dest : RowBuffer) :
    Ensures (collect sender router rows mode size phase) dest
      (fun trace _ dest' => ∃ arrivals, arrivals.length = size.count rows ∧
        Collected mode size rows dest arrivals dest' ∧
        trace = arrivals.flatMap (Arrival.trace sender router))
      fun trace stop dest' => ∀ e, stop = .error e →
        CollectFailure sender router mode size rows dest trace dest' := by
  refine (ensures_collect_batches sender router rows phase dest).mono (fun _ _ _ h => h) ?_
  intro trace stop dest' h e heq
  subst heq
  obtain ⟨arrivals, rest, hlt, hcollected, htrace, honce, -⟩ := h
  exact ⟨arrivals, rest, hlt, hcollected, htrace, honce.length_le⟩

end Pass

end ObliviousRouting
