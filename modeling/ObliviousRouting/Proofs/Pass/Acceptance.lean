import ObliviousRouting.Proofs.Network.Queues
import ObliviousRouting.Proofs.Pass.Failures

/-!
# What a collector accepts

A collector has no say in what it is sent. It takes one message of the sender and one of the router for each
batch, in whichever order they come, and goes on for as long as they make a batch of the right shape. So if the
messages stand in two queues, then it takes the batches up to the first one that is missing or misshapen,
places them one after the other, leaves that one out, and reads nothing that comes after it.
-/

namespace ObliviousRouting

open Role Trace

namespace Process.AtMostOne

variable {first second : Nat} {trace : Trace}

theorem symm (h : AtMostOne first second trace) : AtMostOne second first trace := by
  obtain ⟨r₁, r₂, h⟩ := h
  exact ⟨r₂, r₁, h.symm⟩

theorem length_answers_le (h : AtMostOne first second trace) (hne : first ≠ second) :
    (answers first trace).length ≤ 1 := by
  obtain ⟨r₁, r₂, h | h⟩ := h
  · have hsub : (answers first trace).Sublist (answers first [.received first r₁, .received second r₂]) :=
      h.filterMap _
    rw [answers_cons_self, answers_cons_of_ne hne.symm] at hsub
    exact hsub.length_le
  · have hsub : (answers first trace).Sublist (answers first [.received second r₂, .received first r₁]) :=
      h.filterMap _
    rw [answers_cons_of_ne hne.symm, answers_cons_self] at hsub
    exact hsub.length_le

theorem answers_eq (h : AtMostOne first second trace) (hne : first ≠ second) {answer : Received}
    (hmem : .received first answer ∈ trace) : answers first trace = [answer] := by
  have hle := h.length_answers_le hne
  have hmem' := mem_answers hmem
  obtain ⟨answer', heq⟩ := List.length_eq_one_iff.1 (Nat.le_antisymm hle (List.length_pos_of_mem hmem'))
  rw [heq, List.mem_singleton] at hmem'
  rw [heq, hmem']

end Process.AtMostOne

namespace Pass

variable {mode : Mode} {size : BatchSize} {sender router rows : Nat} {dest dest' : RowBuffer}

/-! ### Batches of two queues -/

section Batches

variable (size : BatchSize) (rows : Nat) (dest : RowBuffer) (sent routed : List Bytes)

/-- Batch `k` of two queues, each of its rows with a target, if there is one of the right shape. -/
def batch? (k : Nat) : Option (List (Target × Bytes)) := do
  let bytes ← sent[k]?
  let message ← routed[k]?
  let targets ← Target.codec.decodeList? message
  if targets.length = batchRows size rows k ∧ bytes.length = batchRows size rows k * dest.stride ∧
      Within targets dest.size then
    some (targets.zip (bytes.chunks dest.stride))
  else none

/-- The number of leading batches that there are, which is the index of the first one that there is not. -/
def accepted : Nat :=
  (List.range (size.count rows)).findIdx fun k => (batch? size rows dest sent routed k).isNone

/-- What the leading batches say is to be written. -/
def writes : List (Target × Bytes) :=
  (List.range (accepted size rows dest sent routed)).flatMap fun k =>
    (batch? size rows dest sent routed k).getD []

end Batches

variable {sent routed : List Bytes} {k : Nat}

theorem accepted_eq (hle : k ≤ size.count rows)
    (hsome : ∀ j < k, (batch? size rows dest sent routed j).isNone = false)
    (hnone : k < size.count rows → batch? size rows dest sent routed k = none) :
    accepted size rows dest sent routed = k := by
  rcases Nat.eq_or_lt_of_le hle with rfl | hlt
  · rw [accepted, List.findIdx_eq_length_of_false fun j hj => hsome j (List.mem_range.1 hj), List.length_range]
  · rw [accepted, List.findIdx_eq (by rwa [List.length_range])]
    simp only [List.getElem_range]
    exact ⟨by rw [hnone hlt, Option.isNone_none], hsome⟩

section Arrival

variable {a : Arrival} (hsent : sent[k]? = some a.rows)
  (hrouted : routed[k]? = some (Target.codec.encodeList a.targets ++ a.rest))
  (hlt : a.targets.length < Size.limit)

include hsent hrouted hlt

theorem batch?_of_arrival : batch? size rows dest sent routed k =
    if a.targets.length = batchRows size rows k ∧ a.rows.length = batchRows size rows k * dest.stride ∧
      Within a.targets dest.size then some (a.pairs dest.stride) else none := by
  simp only [batch?, hsent, hrouted, Option.bind_eq_bind, Option.bind_some,
    Target.codec.decodeList?_encodeList hlt]
  rfl

theorem batch?_of_fits (h : a.Fits (batchRows size rows k) dest) :
    batch? size rows dest sent routed k = some (a.pairs dest.stride) := by
  rw [batch?_of_arrival hsent hrouted hlt, if_pos ⟨h.length_targets, h.length_rows, h.within⟩]

theorem batch?_of_not_fits (hstride : 0 < dest.stride) (h : ¬ a.Fits (batchRows size rows k) dest) :
    batch? size rows dest sent routed k = none := by
  rw [batch?_of_arrival hsent hrouted hlt, if_neg]
  intro hfits
  exact h ⟨hfits.1, hfits.2.1, hstride, hfits.2.2⟩

end Arrival

theorem batch?_of_not_sent (h : sent[k]? = none) : batch? size rows dest sent routed k = none := by
  rw [batch?, h]
  rfl

theorem batch?_of_not_routed (h : ∀ message, routed[k]? = some message →
    Target.codec.decodeList? message = none) : batch? size rows dest sent routed k = none := by
  simp only [batch?, Option.bind_eq_bind]
  cases sent[k]? with
  | none => rfl
  | some bytes =>
    cases hrouted : routed[k]? with
    | none => rfl
    | some message =>
      simp only [Option.bind_some, h message hrouted]
      rfl

/-! ### Batches that have come in -/

/-- The message of the router. -/
def Arrival.targetBytes (a : Arrival) : Bytes := Target.codec.encodeList a.targets ++ a.rest

section Arrivals

variable (hends : sender ≠ router)
include hends

theorem answers_trace (a : Arrival) : answers sender (a.trace sender router) = [.ok a.rows] ∧
    answers router (a.trace sender router) = [.ok a.targetBytes] := by
  rw [Arrival.trace]
  split
  · rw [answers_cons_of_ne hends.symm, answers_cons_self, answers_cons_self, answers_cons_of_ne hends]
    exact ⟨rfl, rfl⟩
  · rw [answers_cons_self, answers_cons_of_ne hends.symm, answers_cons_of_ne hends, answers_cons_self]
    exact ⟨rfl, rfl⟩

theorem answers_arrivals (arrivals : List Arrival) :
    answers sender (arrivals.flatMap (Arrival.trace sender router)) = (arrivals.map Arrival.rows).map .ok ∧
      answers router (arrivals.flatMap (Arrival.trace sender router)) =
        (arrivals.map Arrival.targetBytes).map .ok := by
  induction arrivals with
  | nil => exact ⟨rfl, rfl⟩
  | cons a arrivals ih =>
    obtain ⟨hsender, hrouter⟩ := answers_trace hends a
    rw [List.flatMap_cons, answers_append, answers_append, ih.1, ih.2, hsender, hrouter]
    exact ⟨rfl, rfl⟩

end Arrivals

/-- A message that was read stands in the queue. -/
theorem getElem?_of_gives {queue before : List Bytes} {after : List Received}
    (h : Gives queue (before.map .ok ++ after)) {message : Bytes} (hk : before[k]? = some message) :
    queue[k]? = some message := by
  obtain ⟨hlt, -⟩ := List.getElem?_eq_some_iff.1 hk
  have hget : (before.map Except.ok ++ after)[k]? = some (.ok message) := by
    rw [List.getElem?_append_left (by rwa [List.length_map]), List.getElem?_map, hk]
    rfl
  exact (h k _ hget).symm

/-- The answer after the messages that were read is what comes next in the queue. -/
theorem toOption_of_gives {queue before : List Bytes} {answer : Received}
    (h : Gives queue (before.map .ok ++ [answer])) : answer.toOption = queue[before.length]? := by
  apply h
  rw [List.getElem?_append_right (by rw [List.length_map]), List.length_map, Nat.sub_self]
  rfl

/-- Some batches have come in from two queues, and what follows them. -/
structure FromQueues (sender router : Nat) (sent routed : List Bytes) (arrivals : List Arrival)
    (rest : Trace) : Prop where
  ends_ne : sender ≠ router
  sender_gives : Gives sent (answers sender (arrivals.flatMap (Arrival.trace sender router) ++ rest))
  router_gives : Gives routed (answers router (arrivals.flatMap (Arrival.trace sender router) ++ rest))
  once : Process.AtMostOne sender router rest

namespace FromQueues

variable {arrivals : List Arrival} {rest : Trace} (h : FromQueues sender router sent routed arrivals rest)
include h

theorem gives_sent : Gives sent ((arrivals.map Arrival.rows).map .ok ++ answers sender rest) := by
  rw [← (answers_arrivals h.ends_ne arrivals).1, ← answers_append]
  exact h.sender_gives

theorem gives_routed : Gives routed ((arrivals.map Arrival.targetBytes).map .ok ++ answers router rest) := by
  rw [← (answers_arrivals h.ends_ne arrivals).2, ← answers_append]
  exact h.router_gives

theorem batch?_eq_some (hcollected : Collected mode size rows dest arrivals dest')
    (hrows : rows < Target.rowLimit) {a : Arrival} (ha : arrivals[k]? = some a) :
    batch? size rows dest sent routed k = some (a.pairs dest.stride) := by
  have hfits := hcollected.fits k a ha
  have hsent : sent[k]? = some a.rows :=
    getElem?_of_gives h.gives_sent (by rw [List.getElem?_map, ha, Option.map_some])
  have hrouted : routed[k]? = some a.targetBytes :=
    getElem?_of_gives h.gives_routed (by rw [List.getElem?_map, ha, Option.map_some])
  have hlt : a.targets.length < Size.limit := by
    apply Target.lt_limit
    rw [hfits.length_targets, batchRows]
    omega
  exact batch?_of_fits hsent hrouted hlt hfits

theorem batch?_eq_none (hstride : 0 < dest.stride)
    (hrejected : Rejected sender router (batchRows size rows arrivals.length) dest rest) :
    batch? size rows dest sent routed arrivals.length = none := by
  have hsent := h.gives_sent
  have hrouted := h.gives_routed
  rcases hrejected with ⟨failure, hmem⟩ | ⟨answer, hmem, hunread⟩ | ⟨a, rfl, hlt, hnot⟩
  · rw [h.once.answers_eq h.ends_ne hmem] at hsent
    have hnext := toOption_of_gives hsent
    rw [List.length_map] at hnext
    exact batch?_of_not_sent hnext.symm
  · rw [h.once.symm.answers_eq h.ends_ne.symm hmem] at hrouted
    have hnext := toOption_of_gives hrouted
    rw [List.length_map] at hnext
    apply batch?_of_not_routed
    intro message hmessage
    rw [hmessage] at hnext
    cases answer with
    | error failure => cases hnext
    | ok message' =>
      cases hnext
      exact hunread _ rfl
  · obtain ⟨hsender, hrouter⟩ := answers_trace h.ends_ne a
    rw [hsender] at hsent
    rw [hrouter] at hrouted
    have hnext := toOption_of_gives hsent
    have hnext' := toOption_of_gives hrouted
    rw [List.length_map] at hnext hnext'
    exact batch?_of_not_fits hnext.symm hnext'.symm hlt hstride hnot

/-- No end has been asked for more than one message after the batches that have come in, and for none at all
if these are all there are. -/
theorem length_answers_le {count : Nat} (hle : arrivals.length ≤ count)
    (hall : arrivals.length = count → rest = []) :
    (answers sender (arrivals.flatMap (Arrival.trace sender router) ++ rest)).length ≤
        min (arrivals.length + 1) count ∧
      (answers router (arrivals.flatMap (Arrival.trace sender router) ++ rest)).length ≤
        min (arrivals.length + 1) count := by
  obtain ⟨hsender, hrouter⟩ := answers_arrivals h.ends_ne arrivals
  rw [answers_append, answers_append, hsender, hrouter, List.length_append, List.length_append,
    List.length_map, List.length_map, List.length_map, List.length_map]
  rcases Nat.eq_or_lt_of_le hle with heq | hlt
  · rw [hall heq]
    exact ⟨Nat.le_min.2 ⟨Nat.le_succ _, hle⟩, Nat.le_min.2 ⟨Nat.le_succ _, hle⟩⟩
  · have hone := h.once.length_answers_le h.ends_ne
    have hone' := h.once.symm.length_answers_le h.ends_ne.symm
    omega

end FromQueues

theorem flatMap_range_length {α β : Type} {l : List α} {f : α → List β} {g : Nat → List β}
    (h : ∀ k a, l[k]? = some a → g k = f a) : (List.range l.length).flatMap g = l.flatMap f := by
  induction l generalizing g with
  | nil => rfl
  | cons a l ih =>
    have htail : (List.range l.length).flatMap (fun k => g (k + 1)) = l.flatMap f :=
      ih fun k b hb => h (k + 1) b hb
    rw [List.length_cons, List.range_succ_eq_map, List.flatMap_cons, List.flatMap_map, List.flatMap_cons,
      h 0 a rfl, htail]

/-! ### The verdict -/

/-- What a collector makes of two queues. It takes their leading batches, and has them all if it ends well.
Everything else that it has read is at most one message of each queue, and has left no trace. -/
structure Verdict (mode : Mode) (size : BatchSize) (sender router rows : Nat) (dest : RowBuffer)
    (sent routed : List Bytes) (trace : Trace) (result : Outcome PassError Unit) (dest' : RowBuffer) : Prop where
  ok_iff : result = .ok () ↔ accepted size rows dest sent routed = size.count rows
  no_fault (fault : Fault) : result ≠ .error (.fault fault)
  place_eq : place mode dest (writes size rows dest sent routed) = .ok dest'
  holds : dest'.Holds dest.stride (placed mode dest.toList (writes size rows dest sent routed))
  not_named (d : Nat) : (∀ pair ∈ writes size rows dest sent routed, pair.1.row? ≠ some d) →
    dest'.toList[d]? = dest.toList[d]?
  sender_read : (answers sender trace).length ≤ min (accepted size rows dest sent routed + 1) (size.count rows)
  router_read : (answers router trace).length ≤ min (accepted size rows dest sent routed + 1) (size.count rows)

/-- Batches that came in can be placed, and say all there is to know of the rows they leave. -/
theorem Collected.holds {arrivals : List Arrival} (h : Collected mode size rows dest arrivals dest')
    (hfits : dest.data.size < Size.bufferLimit) :
    dest'.Holds dest.stride (placed mode dest.toList (arrivals.flatMap (Arrival.pairs dest.stride))) := by
  have hpairs : ∀ pair ∈ arrivals.flatMap (Arrival.pairs dest.stride),
      (∀ d, pair.1.row? = some d → d < dest.size) ∧ pair.2.length = dest.stride := by
    intro pair hpair
    obtain ⟨a, ha, hmem⟩ := List.mem_flatMap.1 hpair
    obtain ⟨k, hk⟩ := List.mem_iff_getElem?.1 ha
    obtain ⟨htarget, hshare⟩ := List.of_mem_zip hmem
    exact ⟨(h.fits k a hk).within _ htarget, Bytes.uniform_chunks a.rows _ hshare⟩
  have hwithin : Within ((arrivals.flatMap (Arrival.pairs dest.stride)).map Prod.fst) dest.toList.length := by
    intro t ht
    obtain ⟨pair, hpair, rfl⟩ := List.mem_map.1 ht
    rw [RowBuffer.length_toList]
    exact (hpairs pair hpair).1
  have hshares : Bytes.Uniform dest.stride
      ((arrivals.flatMap (Arrival.pairs dest.stride)).map Prod.snd) := by
    intro share hshare
    obtain ⟨pair, hpair, rfl⟩ := List.mem_map.1 hshare
    exact (hpairs pair hpair).2
  obtain ⟨hplace, hholds⟩ := place_eq_ok mode (RowBuffer.holds_toList hfits) hwithin hshares
  rw [h.place_eq] at hplace
  cases hplace
  exact hholds

/-- The verdict on batches that have come in, if what follows them is no batch. -/
theorem Verdict.of_collected {arrivals : List Arrival} {rest : Trace} {result : Outcome PassError Unit}
    (hqueues : FromQueues sender router sent routed arrivals rest)
    (hcollected : Collected mode size rows dest arrivals dest') (hrows : rows < Target.rowLimit)
    (hfits : dest.data.size < Size.bufferLimit) (hle : arrivals.length ≤ size.count rows)
    (hnone : arrivals.length < size.count rows → batch? size rows dest sent routed arrivals.length = none)
    (hall : arrivals.length = size.count rows → rest = [])
    (hok : result = .ok () ↔ arrivals.length = size.count rows)
    (hfault : ∀ fault, result ≠ .error (.fault fault)) :
    Verdict mode size sender router rows dest sent routed
      (arrivals.flatMap (Arrival.trace sender router) ++ rest) result dest' := by
  have hsome : ∀ k a, arrivals[k]? = some a →
      batch? size rows dest sent routed k = some (a.pairs dest.stride) :=
    fun _ _ ha => hqueues.batch?_eq_some hcollected hrows ha
  have hcount : accepted size rows dest sent routed = arrivals.length :=
    accepted_eq hle (fun j hj => by rw [hsome j _ (List.getElem?_eq_getElem hj), Option.isNone_some]) hnone
  have hwrites : writes size rows dest sent routed = arrivals.flatMap (Arrival.pairs dest.stride) := by
    rw [writes, hcount]
    exact flatMap_range_length fun k a ha => by rw [hsome k a ha, Option.getD_some]
  have hholds := hcollected.holds hfits
  obtain ⟨hsender, hrouter⟩ := hqueues.length_answers_le hle hall
  constructor
  · rwa [hcount]
  · exact hfault
  · rw [hwrites]
    exact hcollected.place_eq
  · rwa [hwrites]
  · intro d hd
    rw [hwrites] at hd
    rw [hholds.toList_eq]
    exact placed_of_not_named hd
  · rwa [hcount]
  · rwa [hcount]

/-- A collector that has two queues to read takes their leading batches as they are and leaves everything
else, whatever stands in the queues and in whichever order it reads them. -/
theorem collects_leading_batches (hends : sender ≠ router) (hsizable : Sizable size dest)
    (hstride : 0 < dest.stride) (hrows : rows < Target.rowLimit) (mode : Mode) (phase : String)
    (sent routed : List Bytes) :
    (∃ trace result dest', Runs (collect sender router rows mode size phase) dest trace result dest' ∧
      Gives sent (answers sender trace) ∧ Gives routed (answers router trace)) ∧
    ∀ trace result dest', Runs (collect sender router rows mode size phase) dest trace result dest' →
      Gives sent (answers sender trace) → Gives routed (answers router trace) →
        Verdict mode size sender router rows dest sent routed trace result dest' := by
  refine ⟨?_, fun trace result dest' hruns hsent hrouted => ?_⟩
  · obtain ⟨trace, hplays, hgives⟩ := Process.exists_plays
      ((collect sender router rows mode size phase).start dest)
      { incoming := fun p => if p = sender then sent else routed }
    refine ⟨trace, _, _, hplays, ?_, ?_⟩
    · simpa using hgives sender
    · simpa [hends.symm] using hgives router
  · have hcollect := @ensures_collect_batches mode size sender router rows phase dest
    cases result with
    | ok u =>
      obtain ⟨arrivals, hcount, hcollected, rfl⟩ := hcollect.ok hruns
      rw [← List.append_nil (arrivals.flatMap _)] at hsent hrouted ⊢
      have hqueues : FromQueues sender router sent routed arrivals [] :=
        ⟨hends, hsent, hrouted, ⟨.error .empty, .error .empty, .inl (List.nil_sublist _)⟩⟩
      exact .of_collected hqueues hcollected hrows hsizable.dest_fits (Nat.le_of_eq hcount)
        (fun hlt => absurd hcount (Nat.ne_of_lt hlt)) (fun _ => rfl) (iff_of_true rfl hcount) nofun
    | error stop =>
      have hstop := hcollect.error hruns
      cases stop with
      | fault fault => exact absurd hsizable hstop
      | error e =>
        obtain ⟨arrivals, rest, hlt, hcollected, rfl, honce, hrejected⟩ := hstop
        have hqueues : FromQueues sender router sent routed arrivals rest := ⟨hends, hsent, hrouted, honce⟩
        exact .of_collected hqueues hcollected hrows hsizable.dest_fits (Nat.le_of_lt hlt)
          (fun _ => hqueues.batch?_eq_none hstride (hrejected hrows))
          (fun hcount => absurd hcount (Nat.ne_of_lt hlt)) (iff_of_false nofun (Nat.ne_of_lt hlt)) nofun

/-- Three rows of one byte in batches of two, where the second batch names a row that there is not. -/
theorem collects_leading_batches_of_stray_target :
    let sent : List Bytes := [[1, 2], [3]]
    let routed := [Target.codec.encodeList [.ofRow 2, .ofRow 0], Target.codec.encodeList [.ofRow 7]]
    ∃ trace result dest', Runs (collect 0 1 3 .overwrite ⟨2⟩ "t") (.blank 3 1) trace result dest' ∧
      Gives sent (answers 0 trace) ∧ Gives routed (answers 1 trace) ∧ result ≠ .ok () ∧
      dest'.toList = [[2], [0], [1]] := by
  intro sent routed
  have hsizable : Sizable ⟨2⟩ (.blank 3 1) := by
    constructor <;> decide
  obtain ⟨⟨trace, result, dest', hruns, hsent, hrouted⟩, hverdict⟩ :=
    collects_leading_batches (show 0 ≠ 1 by decide) hsizable (by decide) (show 3 < Target.rowLimit by decide)
      .overwrite "t" sent routed
  have verdict := hverdict trace result dest' hruns hsent hrouted
  have hone : accepted ⟨2⟩ 3 (.blank 3 1) sent routed = 1 := by decide
  refine ⟨trace, result, dest', hruns, hsent, hrouted, fun hok => ?_, ?_⟩
  · rw [verdict.ok_iff, hone] at hok
    exact absurd hok (by decide)
  · rw [verdict.holds.toList_eq]
    decide

end Pass

end ObliviousRouting
