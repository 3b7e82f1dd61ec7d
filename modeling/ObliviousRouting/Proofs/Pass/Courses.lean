import ObliviousRouting.Proofs.Network.Phases
import ObliviousRouting.Proofs.Pass.Place
import ObliviousRouting.Proofs.Pass.Shuffle
import ObliviousRouting.Proofs.Wire.Codec

/-!
# What the roles of a pass do

Sender and router go through different loops over different data, but batch by batch they have dealt
with the same positions of the same shuffle. So each batch on the wire is a part of the shuffled list, of
rows or of targets, and what router and collector have written after some batches is what placing the
shares up to there makes of their rows.
-/

namespace ObliviousRouting.Pass

open Bytes Role

variable (x : Blinding) (rows : List Bytes) (targets : List Target) (width : Nat) (size : BatchSize)

/-- The masked rows, in the order in which they are sent. -/
def maskedRows : List Bytes := List.zipWith xor (x.shuffle rows) (x.masks rows.length width)

/-- The shares that the router writes, each with its target. -/
def routerShares : List (Target × Bytes) := (x.shuffle targets).zip (x.masks targets.length width)

/-- The shares that the collector writes, each with its target. -/
def collectorShares : List (Target × Bytes) := (x.shuffle targets).zip (maskedRows x rows width)

/-- Batch `k` of the masked rows on the wire. -/
def rowsMessage (k : Nat) : Bytes := (size.batch (maskedRows x rows width) k).flatten

def targetsMessage (k : Nat) : Bytes := Target.codec.encodeList (size.batch (x.shuffle targets) k)

def sendCourse (collector : Nat) (phase : String) : Course :=
  (List.range (size.count rows.length)).map fun k =>
    .send collector phase (rowsMessage x rows width size k)

def routeCourse (collector : Nat) (phase : String) : Course :=
  (List.range (size.count targets.length)).map fun k =>
    .send collector phase (targetsMessage x targets size k)

def collectCourse (sender router : Nat) : Course :=
  (List.range (size.count rows.length)).map fun k =>
    .receiveBoth sender (rowsMessage x rows width size k) router (targetsMessage x targets size k)

/-- The courses of all three roles. -/
def timetable (phase : String) (sender router collector : Nat) : Timetable :=
  .trio sender router collector (sendCourse x rows width size collector phase)
    (routeCourse x targets size collector phase)
    (collectCourse x rows targets width size sender router)

variable {x rows targets width size} {σ : Type}

theorem phase_timetable {S : List Nat} {sender router collector : Nat}
    (h : Timetable.Apart S sender router collector) {capacity : Nat} (hcap : 2 ≤ capacity)
    (hlength : targets.length = rows.length) (phase : String) :
    (timetable x rows targets width size phase sender router collector).Phase capacity S := by
  have hjoin := Timetable.join_map_trio (a := sender) (b := router) (c := collector)
    (List.range (size.count rows.length))
    (fun k => [.send collector phase (rowsMessage x rows width size k)])
    (fun k => [.send collector phase (targetsMessage x targets size k)])
    (fun k => [.receiveBoth sender (rowsMessage x rows width size k) router
      (targetsMessage x targets size k)])
  simp only [← List.map_eq_flatMap] at hjoin
  rw [timetable, sendCourse, routeCourse, collectCourse, hlength, ← hjoin]
  apply Timetable.Phase.join
  intro A hA
  obtain ⟨k, -, rfl⟩ := List.mem_map.1 hA
  exact Timetable.phase_converge h hcap ..

theorem length_maskedRows (hx : x.Lawful) : (maskedRows x rows width).length = rows.length := by
  rw [maskedRows, List.length_zipWith, Blinding.length_shuffle hx, hx.length_masks, Nat.min_self]

theorem uniform_maskedRows (hx : x.Lawful) (hrows : Uniform width rows) :
    Uniform width (maskedRows x rows width) :=
  (hrows.mono (Blinding.shuffle_perm hx rows).subset).zipWith_xor _

theorem map_fst_routerShares (hx : x.Lawful) :
    (routerShares x targets width).map Prod.fst = x.shuffle targets := by
  apply List.map_fst_zip
  rw [hx.length_masks, Blinding.length_shuffle hx]

theorem map_snd_routerShares (hx : x.Lawful) :
    (routerShares x targets width).map Prod.snd = x.masks targets.length width := by
  apply List.map_snd_zip
  rw [hx.length_masks, Blinding.length_shuffle hx]

theorem map_fst_collectorShares (hx : x.Lawful) (hlength : targets.length = rows.length) :
    (collectorShares x rows targets width).map Prod.fst = x.shuffle targets := by
  apply List.map_fst_zip
  rw [length_maskedRows hx, Blinding.length_shuffle hx, hlength]

theorem map_snd_collectorShares (hx : x.Lawful) (hlength : targets.length = rows.length) :
    (collectorShares x rows targets width).map Prod.snd = maskedRows x rows width := by
  apply List.map_snd_zip
  rw [length_maskedRows hx, Blinding.length_shuffle hx, hlength]

section Holds

variable {dest : RowBuffer} {old : List Bytes}

theorem within_routerShares (hx : x.Lawful) {n : Nat} (h : Within targets n) :
    Within ((routerShares x targets width).map Prod.fst) n := by
  rw [map_fst_routerShares hx]
  exact h.mono (Blinding.shuffle_perm hx targets).subset

theorem uniform_routerShares (hx : x.Lawful) :
    Uniform width ((routerShares x targets width).map Prod.snd) := by
  rw [map_snd_routerShares hx]
  exact hx.uniform_masks _ _

theorem within_collectorShares (hx : x.Lawful) (hlength : targets.length = rows.length) {n : Nat}
    (h : Within targets n) : Within ((collectorShares x rows targets width).map Prod.fst) n := by
  rw [map_fst_collectorShares hx hlength]
  exact h.mono (Blinding.shuffle_perm hx targets).subset

theorem uniform_collectorShares (hx : x.Lawful) (hlength : targets.length = rows.length)
    (h : Uniform width rows) : Uniform width ((collectorShares x rows targets width).map Prod.snd) := by
  rw [map_snd_collectorShares hx hlength]
  exact uniform_maskedRows hx h

theorem holds_routed (mode : Mode) (hx : x.Lawful) (hdest : dest.Holds width old) (h : Within targets old.length) :
    (placement mode dest (routerShares x targets width)).Holds width
      (placed mode old (routerShares x targets width)) :=
  (place_eq_ok mode hdest (within_routerShares hx h) (uniform_routerShares hx)).2

theorem holds_collected (mode : Mode) (hx : x.Lawful) (hlength : targets.length = rows.length)
    (hrows : Uniform width rows) (hdest : dest.Holds width old) (h : Within targets old.length) :
    (placement mode dest (collectorShares x rows targets width)).Holds width
      (placed mode old (collectorShares x rows targets width)) :=
  (place_eq_ok mode hdest (within_collectorShares hx hlength h)
    (uniform_collectorShares hx hlength hrows)).2

end Holds

/-! ### The messages of a batch -/

theorem length_batch_shuffle (size : BatchSize) (hx : x.Lawful)
    (hlength : targets.length = rows.length) (k : Nat) :
    (size.batch (x.shuffle targets) k).length =
      min (k * size.step + size.step) rows.length - k * size.step :=
  BatchSize.length_batch_eq ((Blinding.length_shuffle hx targets).trans hlength)

theorem length_rowsMessage (size : BatchSize) (hx : x.Lawful) (hlength : targets.length = rows.length)
    (huniform : Uniform width rows) (k : Nat) :
    (rowsMessage x rows width size k).length = (size.batch (x.shuffle targets) k).length * width := by
  have hmasked := (uniform_maskedRows hx huniform).mono (BatchSize.batch_subset (b := size) _ k)
  rw [rowsMessage, hmasked.length_flatten, length_batch_shuffle size hx hlength,
    BatchSize.length_batch_eq (length_maskedRows hx)]

/-- The collector reads the masked rows and the targets of a batch. -/
theorem follows_receiveBoth (width : Nat) (size : BatchSize) (hx : x.Lawful)
    (hlength : targets.length = rows.length) (hrows : rows.length < Target.rowLimit) (sender router k : Nat)
    (phase : String) :
    (Process.receiveBoth sender router (Received.bytes phase)
      fun r => Received.bytes phase r >>= Target.codec.read phase).Follows
      [.receiveBoth sender (rowsMessage x rows width size k) router (targetsMessage x targets size k)]
      (.ok (rowsMessage x rows width size k, size.batch (x.shuffle targets) k)) := by
  have hcount : (size.batch (x.shuffle targets) k).length < Size.limit := by
    have hbatch := length_batch_shuffle size hx hlength k
    exact Target.lt_limit (by omega)
  have hread : (Received.bytes phase (.ok (targetsMessage x targets size k)) >>=
      Target.codec.read phase) = .ok (size.batch (x.shuffle targets) k) := by
    rw [Received.bytes_ok_bind]
    exact Target.codec.read_encodeList hcount phase
  exact Process.follows_receiveBoth sender router rfl hread

/-- What placing the shares of no batch, and of all batches, leaves. -/
theorem placement_take_zero (size : BatchSize) (mode : Mode) (dest : RowBuffer)
    (pairs : List (Target × Bytes)) :
    placement mode dest (pairs.take (0 * size.step)) = dest := by
  rw [Nat.zero_mul]
  rfl

theorem placement_take_count (size : BatchSize) (mode : Mode) (dest : RowBuffer)
    {pairs : List (Target × Bytes)} {n : Nat} (hn : pairs.length = n) :
    placement mode dest (pairs.take (size.count n * size.step)) = placement mode dest pairs := by
  rw [BatchSize.take_count_mul_step hn]

/-! ### A batch that has come in -/

/-- What the collector does with the two messages of a batch of `n` rows. -/
def placeBatch (mode : Mode) (n : Nat) (bytes : Bytes) (targets : List Target) :
    Role RowBuffer PassError Unit := do
  let dest ← get
  let mismatch := .shapeMismatch targets.length bytes.length dest.stride
  if dest.stride = 0 ∨ targets.length ≠ n then Role.fail mismatch
  let expected ← Role.ofChecked (Size.mul targets.length dest.stride)
  if expected ≠ bytes.length then Role.fail mismatch
  Role.ofExcept (checkTargets targets dest.size)
  let dest ← Role.ofChecked (place mode dest (targets.zip (bytes.chunks dest.stride)))
  set dest

theorem collect_eq (sender router rows : Nat) (mode : Mode) (size : BatchSize) (phase : String) :
    collect sender router rows mode size phase = (do
      Role.ofExcept (checkRows rows)
      Role.iterate (fun k _ => do
        let (first, last) ← Role.ofChecked (size.range rows k)
        let (bytes, targets) ← Role.mapError .link (Role.ofProcess
          (Process.receiveBoth sender router (Received.bytes phase)
            fun r => Received.bytes phase r >>= Target.codec.read phase))
        placeBatch mode (last - first) bytes targets) (size.count rows) 0 ()) := rfl

/-- A batch that fits is placed. -/
theorem performs_placeBatch (mode : Mode) {dest dest' : RowBuffer} {old : List Bytes} {n : Nat} {bytes : Bytes}
    (hdest : dest.Holds width old) (hwidth : 0 < width) (hcount : targets.length = n)
    (hbytes : bytes.length = targets.length * width) (hlt : targets.length * width < Size.bufferLimit)
    (hwithin : Within targets old.length)
    (hplace : place mode dest (targets.zip (bytes.chunks width)) = .ok dest') :
    Performs (placeBatch mode n bytes targets) dest [] () dest' := by
  simp only [placeBatch]
  refine Performs.bind_nil (Performs.get _) ?_
  rw [hdest.stride_eq, hdest.size_eq, if_neg (by omega)]
  refine Performs.bind_nil (Performs.ofChecked (Size.mul_eq_ok_of_lt hlt) _) ?_
  rw [if_neg (not_not_intro hbytes.symm)]
  refine Performs.bind_nil (Performs.ofExcept (checkTargets_eq_ok hwithin) _) ?_
  refine Performs.bind_nil (Performs.ofChecked hplace _) ?_
  exact Performs.set _ _

/-! ### The three roles -/

theorem performs_send (hx : x.Lawful) {data : RowBuffer} (hdata : data.Holds width rows)
    (hrows : rows.length < Target.rowLimit) (hfits : size.Fits rows.length) (collector : Nat)
    (phase : String) (s : σ) :
    Performs (send x collector data size phase) s (sendCourse x rows width size collector phase) () s := by
  have hmasks := hx.length_masks rows.length width
  have hshuffled : Uniform width (x.shuffle rows) :=
    hdata.uniform.mono (Blinding.shuffle_perm hx rows).subset
  have hlength : (x.shuffle rows).length = (x.masks rows.length width).length := by
    rw [Blinding.length_shuffle hx, hmasks]
  rw [sendCourse, List.map_eq_flatMap]
  simp only [send, hdata.size_eq, hdata.stride_eq, hdata.toList_eq]
  refine Performs.bind_nil (Performs.ofExcept (checkRows_eq_ok hrows) s) ?_
  refine Performs.bind_end (a := x.shuffledTo rows (size.count rows.length * size.step)) ?_ (.pure () s)
  rw [← Blinding.shuffledTo_zero_mul x rows size.step]
  apply Performs.iterate (b := fun k => x.shuffledTo rows (k * size.step)) (s := fun _ => s)
  intro k hk
  have hmessage : xor (size.batch (x.shuffle rows) k).flatten
      (size.batch (x.masks rows.length width) k).flatten = rowsMessage x rows width size k := by
    rw [(hshuffled.mono (BatchSize.batch_subset _ k)).xor_flatten
      ((hx.uniform_masks _ _).mono (BatchSize.batch_subset _ k))
      (BatchSize.batch_congr_length hlength k), rowsMessage, maskedRows, BatchSize.batch_zipWith]
  refine Performs.bind_nil (Performs.ofChecked (BatchSize.range_eq_ok hfits hk) s) ?_
  simp only [BatchSize.part_eq_batch (hx.length_partners _), BatchSize.part_eq_batch hmasks]
  refine Performs.bind_nil (Performs.ofChecked (Blinding.exchangeAll_batch hx rows size hk) s) ?_
  rw [Blinding.part_shuffledTo hx, hmessage]
  exact Performs.bind_end (Performs.mapError PassError.link (Performs.sendBytes ..)) (.pure _ s)

theorem performs_route (mode : Mode) (hx : x.Lawful) {dest : RowBuffer} {old : List Bytes}
    (hdest : dest.Holds width old) (hwithin : Within targets old.length)
    (hdist : Target.Distinct targets) (hwidth : width < Size.bufferLimit)
    (hrows : targets.length < Target.rowLimit) (hfits : size.Fits targets.length) (collector : Nat)
    (phase : String) :
    Performs (route x collector targets mode size phase) dest
      (routeCourse x targets size collector phase) ()
      (placement mode dest (routerShares x targets width)) := by
  have hmasks := hx.length_masks targets.length width
  have hnamed : Within ((routerShares x targets width).map Prod.fst) old.length :=
    within_routerShares hx hwithin
  have hshares : Uniform width ((routerShares x targets width).map Prod.snd) :=
    uniform_routerShares hx
  have hlength : (routerShares x targets width).length = targets.length := by
    rw [← List.length_map Prod.snd, map_snd_routerShares hx, hmasks]
  have hstart := placement_take_zero size mode dest (routerShares x targets width)
  simp only [route]
  refine Performs.bind_nil (Performs.ofExcept (checkRows_eq_ok hrows) dest) ?_
  refine Performs.bind_nil (Performs.get dest) ?_
  refine Performs.bind_nil
    (Performs.ofExcept (checkTargets_eq_ok (by rwa [hdest.size_eq])) dest) ?_
  rw [if_pos hdist, hdest.stride_eq, routeCourse, List.map_eq_flatMap]
  refine Performs.bind_nil (Performs.ofChecked (Size.buffer_eq_ok hwidth) dest) ?_
  rw [← placement_take_count size mode dest hlength]
  refine Performs.bind_end (a := x.shuffledTo targets (size.count targets.length * size.step)) ?_
    (.pure () _)
  rw [← Blinding.shuffledTo_zero_mul x targets size.step]
  conv => arg 2; rw [← hstart]
  apply Performs.iterate (b := fun k => x.shuffledTo targets (k * size.step))
    (s := fun k => placement mode dest ((routerShares x targets width).take (k * size.step)))
  intro k hk
  refine Performs.bind_nil (Performs.ofChecked (BatchSize.range_eq_ok hfits hk) _) ?_
  simp only [BatchSize.part_eq_batch (hx.length_partners _), BatchSize.part_eq_batch hmasks]
  refine Performs.bind_nil (Performs.ofChecked (Blinding.exchangeAll_batch hx targets size hk) _) ?_
  rw [Blinding.part_shuffledTo hx, ← BatchSize.batch_zip]
  refine Performs.bind_nil (Performs.get _) ?_
  refine Performs.bind_nil (Performs.ofChecked (place_batch mode hdest hnamed hshares size k) _) ?_
  refine Performs.bind_nil (Performs.set _ _) ?_
  exact Performs.bind_end (Performs.mapError PassError.link (Performs.sendList ..)) (.pure _ _)

theorem performs_collect (mode : Mode) (hx : x.Lawful) {dest : RowBuffer} {old : List Bytes}
    (hdest : dest.Holds width old) (hwithin : Within targets old.length)
    (hlength : targets.length = rows.length) (huniform : Uniform width rows)
    (hwidth : rows = [] ∨ 0 < width) (hlt : rows.length * width < Size.bufferLimit)
    (hrows : rows.length < Target.rowLimit) (hfits : size.Fits rows.length)
    (sender router : Nat) (phase : String) :
    Performs (collect sender router rows.length mode size phase) dest
      (collectCourse x rows targets width size sender router) ()
      (placement mode dest (collectorShares x rows targets width)) := by
  have hnamed : Within ((collectorShares x rows targets width).map Prod.fst) old.length :=
    within_collectorShares hx hlength hwithin
  have hshares := uniform_collectorShares hx hlength huniform
  have hpairs : (collectorShares x rows targets width).length = rows.length := by
    rw [← List.length_map Prod.snd, map_snd_collectorShares hx hlength, length_maskedRows hx]
  have hstart := placement_take_zero size mode dest (collectorShares x rows targets width)
  rw [collect_eq]
  refine Performs.bind_nil (Performs.ofExcept (checkRows_eq_ok hrows) dest) ?_
  rw [← placement_take_count size mode dest hpairs, collectCourse, List.map_eq_flatMap]
  conv => arg 2; rw [← hstart]
  apply Performs.iterate (b := fun _ => ())
    (s := fun k => placement mode dest ((collectorShares x rows targets width).take (k * size.step)))
  intro k hk
  have hcurrent := holds_placement_take mode hdest hnamed hshares (k * size.step)
  have hmasked := (uniform_maskedRows hx huniform).mono (BatchSize.batch_subset (b := size) _ k)
  have hbatch := length_batch_shuffle size hx hlength k
  have hbytes := length_rowsMessage size hx hlength huniform k
  have hpos : 0 < width := BatchSize.width_pos (hwidth.imp_left (congrArg List.length)) hk
  have hboth := follows_receiveBoth width size hx hlength hrows sender router k phase
  refine Performs.bind_nil (Performs.ofChecked (BatchSize.range_eq_ok hfits hk) _) ?_
  refine Performs.bind_end (Performs.mapError PassError.link (Performs.ofProcess hboth _)) ?_
  have hplace := place_batch mode hdest hnamed hshares size k
  rw [collectorShares, BatchSize.batch_zip, ← hmasked.chunks_flatten hpos] at hplace
  have hle : (size.batch (x.shuffle targets) k).length * width ≤ rows.length * width :=
    Nat.mul_le_mul_right _ (by omega)
  refine performs_placeBatch mode hcurrent hpos hbatch hbytes (by omega) ?_ hplace
  rw [length_placed]
  exact hwithin.mono (List.Subset.trans (BatchSize.batch_subset _ k) (Blinding.shuffle_perm hx targets).subset)

end ObliviousRouting.Pass
