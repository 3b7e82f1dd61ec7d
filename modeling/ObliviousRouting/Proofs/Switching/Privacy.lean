import Mathlib.SetTheory.Cardinal.Finite
import ObliviousRouting.Proofs.Network.Rounds
import ObliviousRouting.Proofs.Plan.Feeding
import ObliviousRouting.Proofs.Switching.Excess
import ObliviousRouting.Proofs.Switching.Hiding
import ObliviousRouting.Proofs.Switching.Traffic

/-!
# The planner does not see the source rows

All that the planner is sent in a run hides the source rows behind the helper's fresh rows and the pads. For
any other source rows of the same shape there are fresh rows and pads, and just one choice of them, with
which it is sent the same. So if these are chosen at random, the source rows make no difference.
-/

namespace ObliviousRouting.Switching

open Bytes

/-- The random bytes behind which source rows are hidden: the helper's fresh rows, and two strings of pads. -/
@[ext] structure Coins where
  fresh : Bytes
  pad₀ : Bytes
  pad₁ : Bytes

namespace Coins

/-- The coins are as long as they have to be. -/
structure Cover (c : Coins) (length : Nat) : Prop where
  fresh : c.fresh.length = length
  pad₀ : c.pad₀.length = length
  pad₁ : c.pad₁.length = length

/-- Coins that show the same byte everywhere. -/
def flat (length : Nat) (b : UInt8) : Coins :=
  ⟨.replicate length b, .replicate length b, .replicate length b⟩

theorem cover_flat (length : Nat) (b : UInt8) : (flat length b).Cover length :=
  ⟨List.length_replicate, List.length_replicate, List.length_replicate⟩

theorem flat_ne {length : Nat} (h : length ≠ 0) : flat length 0 ≠ flat length 1 := by
  intro hsame
  have hfresh : List.replicate length (0 : UInt8) = List.replicate length 1 := congrArg Coins.fresh hsame
  rw [List.replicate_right_inj h] at hfresh
  exact absurd hfresh (by decide)

theorem Cover.eq {c c' : Coins} (hc : c.Cover 0) (hc' : c'.Cover 0) : c = c' := by
  have hnil {a b : Bytes} (ha : a.length = 0) (hb : b.length = 0) : a = b :=
    (List.eq_nil_of_length_eq_zero ha).trans (List.eq_nil_of_length_eq_zero hb).symm
  exact Coins.ext (hnil hc.fresh hc'.fresh) (hnil hc.pad₀ hc'.pad₀) (hnil hc.pad₁ hc'.pad₁)

/-- If the coins of each of two experiments can be matched with just one choice of coins of the other one,
each view has the same probability in both. -/
theorem card_eq {β : Type} {length : Nat} {view view' : Coins → β}
    (h : ∀ c : Coins, c.Cover length → ∃! c' : Coins, c'.Cover length ∧ view' c' = view c)
    (h' : ∀ c : Coins, c.Cover length → ∃! c' : Coins, c'.Cover length ∧ view c' = view' c) (seen : β) :
    Nat.card { c : Coins // c.Cover length ∧ view c = seen } =
      Nat.card { c : Coins // c.Cover length ∧ view' c = seen } := by
  have hmatch (c : { c : Coins // c.Cover length ∧ view c = seen }) :
      ∃ c' : { c : Coins // c.Cover length ∧ view' c = seen }, view' c' = view c := by
    obtain ⟨c', ⟨hcover, hview⟩, -⟩ := h c c.2.1
    exact ⟨⟨c', hcover, hview.trans c.2.2⟩, hview⟩
  choose f hf using hmatch
  refine Nat.card_eq_of_bijective f ⟨?_, ?_⟩
  · intro a b hab
    obtain ⟨c, -, hunique⟩ := h' (f a) (f a).2.1
    apply Subtype.ext
    rw [hunique a ⟨a.2.1, (hf a).symm⟩, hunique b ⟨b.2.1, hab ▸ (hf b).symm⟩]
  · intro c'
    obtain ⟨c, ⟨hcover, hview⟩, -⟩ := h' c' c'.2.1
    have hseen : view c = seen := hview.trans c'.2.2
    obtain ⟨_, -, hunique⟩ := h c hcover
    refine ⟨⟨c, hcover, hseen⟩, Subtype.ext ?_⟩
    rw [hunique c' ⟨c'.2.1, hview.symm⟩, hunique (f ⟨c, hcover, hseen⟩) ⟨(f _).2.1, hf _⟩]

/-- Keystreams, but for the coins. -/
def expansion (c : Coins) : Expansion :=
  { Expansion.keystreams with
    pads := fun _ => .ofBytes c.pad₀ c.pad₁
    fresh := fun tape n => (c.fresh, (tape.fill n).2) }

end Coins

namespace Run

variable {r : Run} {s : Setting} {c c' : Coins} {source : RowBuffer}

/-- The plan was built by adding edges, it passes its check for a run of the general kind, and all parts are
given the same run with buffers of the right shape. -/
structure Accepted (r : Run) (s : Setting) : Prop where
  built : ∃ edges, r.plan.Built r.source.size s.planner.dest.size edges
  check_eq : r.plan.group.check .general = .ok ()
  kind_eq : r.kind = .general
  seated : r.parties.Seated r.ends
  owner_size : s.owner.dest.size = s.planner.dest.size
  planner_stride : s.planner.dest.stride = r.source.stride
  owner_stride : s.owner.dest.stride = r.source.stride
  batch_lt : r.size.rows < Size.limit
  source_fits : r.source.data.size < Size.bufferLimit
  planner_fits : s.planner.dest.data.size < Size.bufferLimit
  owner_fits : s.owner.dest.data.size < Size.bufferLimit

theorem Accepted.admitted (h : r.Accepted s) : r.Admitted s :=
  { h with check_eq := h.kind_eq ▸ h.check_eq }

theorem Accepted.ready (h : r.Accepted s) (hrows : r.rows < Target.rowLimit) : r.Ready s :=
  h.admitted.ready hrows

theorem Admitted.accepted (h : r.Admitted s) (hkind : r.kind = .general) : r.Accepted s :=
  { h with
    check_eq := hkind ▸ h.check_eq
    kind_eq := hkind }

theorem Accepted.withSource (h : r.Accepted s) (hstride : source.stride = r.source.stride)
    (hsize : source.size = r.source.size) : (r.withSource source).Accepted s :=
  { h.admitted.withSource hstride hsize with
    check_eq := h.check_eq
    kind_eq := h.kind_eq }

/-- What a party sends to the planner in a run, each message with its phase. -/
def received (c : Coins) (r : Run) (s : Setting) (sender : Nat) : List (String × Bytes) :=
  (Mesh.run { parties := r.ends } (r.seats c.expansion s)).2.traffic sender r.parties.planner

/-- The batches among these. -/
def batches (c : Coins) (r : Run) (s : Setting) (sender : Nat) : List Bytes :=
  ((received c r s sender).filter (·.1 = "duplicate")).map Prod.snd

/-- All batches that the planner is sent: masked pairs by the helper, and pads by the owner. -/
def view (c : Coins) (r : Run) (s : Setting) : List Bytes × List Bytes :=
  (batches c r s r.parties.helper, batches c r s r.parties.owner)

/-! ### Traffic -/

theorem greetingPhase_ne : greetingPhase ≠ "duplicate" := by decide

theorem avoids_helperBefore : (r.helperBefore s).Avoids "duplicate" :=
  (avoids_greetCourse greetingPhase_ne).append (CoinToss.avoids_course (by decide))

theorem avoids_helperAfter {x : Expansion} : (r.helperAfter x s).Avoids "duplicate" :=
  CoinToss.avoids_course (by decide)

theorem avoids_ownerBefore : (r.ownerBefore s).Avoids "duplicate" :=
  (avoids_greetCourse greetingPhase_ne).append (CoinToss.avoids_course (by decide))

section Wide

variable (h : r.Accepted s) (hrows : r.rows < Target.rowLimit) (hwidth : r.source.stride < Size.bufferLimit)
  (hc : c.Cover (r.rows * r.source.stride))
include hc

theorem lawful_expansion : c.expansion.Lawful r.rows r.source.stride r.size where
  selecting := Blinding.lawful_ofSeed
  scattering := Blinding.lawful_ofSeed
  length_flips _ := Keystream.length_bits ..
  pads _ := Reveal.cover_ofBytes hc.pad₀ hc.pad₁
  length_fresh _ := hc.fresh

include h hrows hwidth

theorem received_eq (sender : Nat) :
    received c r s sender = Course.outbox (r.timetable c.expansion s sender) r.parties.planner := by
  obtain ⟨s', hrun, -⟩ := (h.ready hrows).underway hwidth (lawful_expansion hc)
  exact (hrun.mesh_run rfl).2.2 sender r.parties.planner

/-- The helper's batches are the messages of masked pairs. All else that it sends to the planner has nothing
to do with the rows. -/
theorem received_helper : received c r s r.parties.helper =
    Course.outbox (r.helperBefore s) r.parties.planner ++
      ((batches c r s r.parties.helper).map (Prod.mk "duplicate") ++
        Course.outbox (r.helperAfter c.expansion s) r.parties.planner) ∧
    batches c r s r.parties.helper =
      (List.range (r.size.count r.rows)).map (r.pairsMessage c.expansion s) := by
  have hreceived : received c r s r.parties.helper = _ :=
    (received_eq h hrows hwidth hc _).trans (outbox_helper h.seated h.kind_eq)
  have hbatches : batches c r s r.parties.helper =
      (List.range (r.size.count r.rows)).map (r.pairsMessage c.expansion s) := by
    rw [batches, hreceived, List.filter_append, List.filter_append, avoids_helperBefore.filter_outbox,
      avoids_helperAfter.filter_outbox, List.nil_append, List.append_nil, List.filter_map, List.map_map]
    simp only [Function.comp_def, decide_true, List.filter_true]
  refine ⟨?_, hbatches⟩
  rw [hreceived, hbatches, List.map_map]
  rfl

theorem received_owner : received c r s r.parties.owner =
    Course.outbox (r.ownerBefore s) r.parties.planner ++
      (batches c r s r.parties.owner).map (Prod.mk "duplicate") ∧
    batches c r s r.parties.owner =
      (List.range (r.size.count r.rows)).map (r.padsMessage c.expansion s) := by
  have hreceived : received c r s r.parties.owner = _ :=
    (received_eq h hrows hwidth hc _).trans (outbox_owner h.seated h.kind_eq)
  have hbatches : batches c r s r.parties.owner =
      (List.range (r.size.count r.rows)).map (r.padsMessage c.expansion s) := by
    rw [batches, hreceived, List.filter_append, avoids_ownerBefore.filter_outbox, List.nil_append,
      List.filter_map, List.map_map]
    simp only [Function.comp_def, decide_true, List.filter_true]
  refine ⟨?_, hbatches⟩
  rw [hreceived, hbatches, List.map_map]
  rfl

theorem table_selected' : Table r.rows r.source.stride (r.selected' c.expansion s) :=
  ⟨(h.ready hrows).length_selected', (h.ready hrows).uniform_selected' hwidth (lawful_expansion hc)⟩

end Wide

/-- With keystreams the planner is sent what it is sent with some coins. -/
theorem Accepted.exists_coins (h : r.Accepted s) (hrows : r.rows < Target.rowLimit)
    (hwidth : r.source.stride < Size.bufferLimit) :
    ∃ c : Coins, c.Cover (r.rows * r.source.stride) ∧ ∀ sender, received c r s sender =
      (Mesh.run { parties := r.ends } (r.seats .keystreams s)).2.traffic sender r.parties.planner := by
  have hx := Expansion.lawful_keystreams r.rows r.source.stride r.size
  obtain ⟨pad₀, pad₁, hpad₀, hpad₁, hbatches⟩ :=
    (hx.pads (Duplicate.padsSeed s.owner.tape.secret.2 s.helper)).exists_ofBytes
  let c : Coins :=
    ⟨((Duplicate.helperTape s.helper).fill (r.rows * r.source.stride)).1, pad₀, pad₁⟩
  have hc : c.Cover (r.rows * r.source.stride) := ⟨Tape.length_fill .., hpad₀, hpad₁⟩
  have hcopying : r.copying c.expansion s .general = r.copying .keystreams s .general :=
    congrArg (fun reveal => Timetable.andThen _ (Timetable.andThen _ reveal))
      (Reveal.timetable_congr hbatches ..)
  have htimetable : r.timetable c.expansion s = r.timetable .keystreams s := by
    rw [timetable, timetable, h.kind_eq, hcopying]
    rfl
  refine ⟨c, hc, fun sender => ?_⟩
  obtain ⟨s', hrun, -⟩ := (h.ready hrows).underway hwidth hx
  rw [received_eq h hrows hwidth hc, (hrun.mesh_run rfl).2.2, htimetable]

theorem pads_expansion {n width : Nat} (hc : c.Cover (n * width)) : pads c.expansion s =
    Reveal.Pads.ofBytes (pieces width n c.pad₀).flatten (pieces width n c.pad₁).flatten := by
  rw [flatten_pieces_of_length hc.pad₀, flatten_pieces_of_length hc.pad₁]
  rfl

/-- The rows that the planner is sent. -/
def seenRows (c : Coins) (r : Run) (s : Setting) : List Bytes × List Bytes × List Bytes :=
  let rows := pieces r.source.stride r.rows
  Duplicate.seen r.source.stride (r.plan.group.copies r.rows) (r.flips c.expansion s)
    (r.selected' c.expansion s) (rows c.fresh) (rows c.pad₀) (rows c.pad₁)

/-! ### Other source rows -/

section Other

variable (h : r.Accepted s) (hrows : r.rows < Target.rowLimit) (hwidth : r.source.stride < Size.bufferLimit)
  (hstride : source.stride = r.source.stride) (hsize : source.size = r.source.size)
  (hc : c.Cover (r.rows * r.source.stride)) (hc' : c'.Cover (r.rows * r.source.stride))
include h hrows hwidth hstride hsize hc hc'

theorem view_eq_iff : view c' (r.withSource source) s = view c r s ↔
    seenRows c' (r.withSource source) s = seenRows c r s := by
  have h' := h.withSource hstride hsize
  obtain ⟨data, stride, hdvd⟩ := source
  subst hstride
  have hsplit : view c' (r.withSource ⟨data, r.source.stride, hdvd⟩) s = view c r s ↔
      ∀ k < r.size.count r.rows,
        (r.withSource ⟨data, r.source.stride, hdvd⟩).pairsMessage c'.expansion s k =
            r.pairsMessage c.expansion s k ∧
          (r.withSource ⟨data, r.source.stride, hdvd⟩).padsMessage c'.expansion s k =
            r.padsMessage c.expansion s k := by
    rw [view, view, Prod.mk.injEq, (received_helper h' hrows hwidth hc').2, (received_helper h hrows hwidth hc).2,
      (received_owner h' hrows hwidth hc').2, (received_owner h hrows hwidth hc).2]
    refine (and_congr List.map_inj_left List.map_inj_left).trans ?_
    constructor
    · rintro ⟨hpairs, hpads⟩ k hk
      exact ⟨hpairs k (List.mem_range.2 hk), hpads k (List.mem_range.2 hk)⟩
    · intro hboth
      exact ⟨fun k hk => (hboth k (List.mem_range.1 hk)).1, fun k hk => (hboth k (List.mem_range.1 hk)).2⟩
  have hown := table_selected' h hrows hwidth hc
  have hown' := table_selected' h' hrows hwidth hc'
  have hfresh := table_pieces hc.fresh
  have hfresh' := table_pieces hc'.fresh
  rw [hsplit, seenRows, seenRows, Duplicate.seen, Duplicate.seen, Prod.mk.injEq, Prod.mk.injEq]
  simp only [pairsMessage, padsMessage, pads_expansion hc, pads_expansion hc']
  exact Reveal.messages_eq_iff (Keystream.length_bits ..) Plan.length_copies
    (Duplicate.table_firstRows hown hfresh) (Duplicate.table_secondRows hfresh)
    (table_pieces hc.pad₀) (table_pieces hc.pad₁) (Duplicate.table_firstRows hown' hfresh')
    (Duplicate.table_secondRows hfresh') (table_pieces hc'.pad₀) (table_pieces hc'.pad₁)
    ((h.ready hrows).sizes hwidth).width_pos

omit hc' in
theorem existsUnique_view_eq : ∃! c', c'.Cover (r.rows * r.source.stride) ∧
    view c' (r.withSource source) s = view c r s := by
  have h' := h.withSource hstride hsize
  have hiff {c' : Coins} (hc' : c'.Cover (r.rows * r.source.stride)) :=
    view_eq_iff h hrows hwidth hstride hsize hc hc'
  obtain ⟨data, stride, hdvd⟩ := source
  subst hstride
  have hflips : (r.flips c.expansion s).length = r.rows := Keystream.length_bits ..
  have hown' : Table r.rows r.source.stride
      ((r.withSource ⟨data, r.source.stride, hdvd⟩).selected' c.expansion s) :=
    table_selected' h' hrows hwidth hc
  obtain ⟨fresh, pads₀, pads₁, hfresh, hpads₀, hpads₁, hseen⟩ := Duplicate.exists_seen_eq_iff
    Plan.length_copies hflips (table_selected' h hrows hwidth hc) (table_pieces hc.fresh)
    (table_pieces hc.pad₀) (table_pieces hc.pad₁) hown'
  have hcoins {c' : Coins} (hc' : c'.Cover (r.rows * r.source.stride)) :
      view c' (r.withSource ⟨data, r.source.stride, hdvd⟩) s = view c r s ↔
        c' = ⟨fresh.flatten, pads₀.flatten, pads₁.flatten⟩ := by
    rw [hiff hc', Coins.ext_iff, ← pieces_eq_iff hc'.fresh hfresh, ← pieces_eq_iff hc'.pad₀ hpads₀,
      ← pieces_eq_iff hc'.pad₁ hpads₁]
    rw [← hseen (table_pieces hc'.fresh) (table_pieces hc'.pad₀) (table_pieces hc'.pad₁)]
    rfl
  have hcover : Coins.Cover ⟨fresh.flatten, pads₀.flatten, pads₁.flatten⟩
      (r.rows * r.source.stride) :=
    ⟨hfresh.length_flatten, hpads₀.length_flatten, hpads₁.length_flatten⟩
  exact ⟨_, ⟨hcover, (hcoins hcover).2 rfl⟩, fun c' ⟨hc', hsame⟩ => (hcoins hc').1 hsame⟩

/-- If the batches are the same, all that helper and owner send to the planner is the same. -/
theorem received_eq_of_view_eq (hsame : view c' (r.withSource source) s = view c r s) :
    received c' (r.withSource source) s r.parties.helper = received c r s r.parties.helper ∧
      received c' (r.withSource source) s r.parties.owner = received c r s r.parties.owner := by
  have h' := h.withSource hstride hsize
  have hshape : (r.withSource source).shape = r.shape := by
    change Shape.mk r.kind source.size _ source.stride r.size = _
    rw [hsize, hstride]
    rfl
  have hhelper : (r.withSource source).helperBefore s = r.helperBefore s :=
    congrArg (fun shape => greetCourse r.parties (fun _ => shape) .helper ++ _) hshape
  have howner : (r.withSource source).ownerBefore s = r.ownerBefore s :=
    congrArg (fun shape => greetCourse r.parties (fun _ => shape) .owner ++ _) hshape
  obtain ⟨data, stride, hdvd⟩ := source
  subst hstride
  obtain ⟨hpairs, hpads⟩ := Prod.mk.inj hsame
  constructor
  · refine (received_helper h' hrows hwidth hc').1.trans ?_
    rw [hhelper, (received_helper h hrows hwidth hc).1, ← hpairs]
    rfl
  · refine (received_owner h' hrows hwidth hc').1.trans ?_
    rw [howner, (received_owner h hrows hwidth hc).1, ← hpads]
    rfl

end Other

/-- Where rows would fill more than a buffer there are none, and nothing is hidden. -/
theorem eq_of_wide (h : r.Accepted s) (hwide : Size.bufferLimit ≤ r.source.stride)
    (hstride : source.stride = r.source.stride) (hsize : source.size = r.source.size) :
    r.rows * r.source.stride = 0 ∧ source = r.source := by
  have hsource := RowBuffer.size_eq_zero h.source_fits hwide
  refine ⟨?_, RowBuffer.eq_of_size_eq_zero hstride (hsize.trans hsource) hsource⟩
  rw [h.admitted.rows_eq_zero hwide, Nat.zero_mul]

/-- For any coins, and any other source rows, there is one choice of coins with which the planner is sent
the same. -/
theorem Accepted.existsUnique_view_eq (h : r.Accepted s) (hrows : r.rows < Target.rowLimit)
    (hstride : source.stride = r.source.stride) (hsize : source.size = r.source.size)
    (hc : c.Cover (r.rows * r.source.stride)) :
    ∃! c', c'.Cover (r.rows * r.source.stride) ∧ view c' (r.withSource source) s = view c r s := by
  rcases Nat.lt_or_ge r.source.stride Size.bufferLimit with hwidth | hwide
  · exact Run.existsUnique_view_eq h hrows hwidth hstride hsize hc
  · obtain ⟨hzero, rfl⟩ := eq_of_wide h hwide hstride hsize
    rw [hzero] at hc ⊢
    exact ⟨c, ⟨hc, rfl⟩, fun c' hc' => hc'.1.eq hc⟩

/-- Source rows are hidden from the planner, if there are targets for all rows. For any choice of coins there
is one choice of coins with which it is sent the same batches for other source rows, and then all that it is
sent is the same. So any batches are as likely for one source as for the other. And what it is sent with
keystreams it is sent with some coins. -/
theorem hides_source_rows (h : r.Accepted s) (hrows : r.rows < Target.rowLimit)
    (hstride : source.stride = r.source.stride) (hsize : source.size = r.source.size) :
    (∀ c : Coins, c.Cover (r.rows * r.source.stride) →
      ∃! c', c'.Cover (r.rows * r.source.stride) ∧ view c' (r.withSource source) s = view c r s) ∧
    (∀ c c' : Coins, c.Cover (r.rows * r.source.stride) → c'.Cover (r.rows * r.source.stride) →
      view c' (r.withSource source) s = view c r s →
        received c' (r.withSource source) s r.parties.helper = received c r s r.parties.helper ∧
          received c' (r.withSource source) s r.parties.owner = received c r s r.parties.owner) ∧
    (∀ seen, Nat.card { c : Coins // c.Cover (r.rows * r.source.stride) ∧ view c r s = seen } =
      Nat.card { c : Coins // c.Cover (r.rows * r.source.stride) ∧
        view c (r.withSource source) s = seen }) ∧
    (r.source.stride < Size.bufferLimit → ∃ c : Coins, c.Cover (r.rows * r.source.stride) ∧
      ∀ sender, received c r s sender =
        (Mesh.run { parties := r.ends } (r.seats .keystreams s)).2.traffic sender r.parties.planner) := by
  refine ⟨fun c hc => h.existsUnique_view_eq hrows hstride hsize hc, fun c c' hc hc' hview => ?_,
    Coins.card_eq (fun c hc => h.existsUnique_view_eq hrows hstride hsize hc) fun c hc => ?_,
    h.exists_coins hrows⟩
  · rcases Nat.lt_or_ge r.source.stride Size.bufferLimit with hwidth | hwide
    · exact received_eq_of_view_eq h hrows hwidth hstride hsize hc hc' hview
    · obtain ⟨hzero, rfl⟩ := eq_of_wide h hwide hstride hsize
      rw [hzero] at hc hc'
      rw [hc.eq hc']
      exact ⟨rfl, rfl⟩
  · -- the roles of both sources can be exchanged
    rw [← hstride] at hc ⊢
    exact (h.withSource hstride hsize).existsUnique_view_eq hrows hstride.symm hsize.symm hc

theorem hides_rows_to_copy : ∃! c' : Coins, c'.Cover 2 ∧
    view c' (copyRun.withSource (pair 8 9)) pairSetting =
      view ⟨[1, 2], [3, 4], [5, 6]⟩ copyRun pairSetting := by
  have hrows : copyRun.rows * copyRun.source.stride = 2 :=
    congrArg (· * 1) fits_copyRun.ready.rows_eq
  have hcoins : Coins.Cover ⟨[1, 2], [3, 4], [5, 6]⟩ 2 := ⟨rfl, rfl, rfl⟩
  have hstride : (pair 8 9).stride = copyRun.source.stride := rfl
  have hsize : (pair 8 9).size = copyRun.source.size := rfl
  have hunique :=
    (hides_source_rows (fits_copyRun.admitted.accepted rfl) fits_copyRun.ready.compact_lt hstride hsize).1
  rw [hrows] at hunique
  exact hunique _ hcoins

/-- With too many rows the planner is sent no batches. -/
theorem Accepted.view_eq_nil (h : r.Accepted s) (hmany : Target.rowLimit ≤ r.rows) : view c r s = ([], []) := by
  have hnone (sender : Nat) : batches c r s sender = [] := by
    rw [batches, received, h.admitted.filter_traffic_eq_nil (.inl hmany) c.expansion (by decide), List.map_nil]
  rw [view, hnone, hnone]

/-- With one row more all coins show the planner the same, for any source rows. -/
theorem hides_source_rows_fails_for_many_rows : (oneOf Target.rowLimit 0).Accepted oneSetting ∧
    ∀ source : RowBuffer, source.stride = 1 → source.size = Target.rowLimit →
      ∀ c, c.Cover Target.rowLimit → ¬ ∃! c' : Coins, c'.Cover Target.rowLimit ∧
        view c' ((oneOf Target.rowLimit 0).withSource source) oneSetting =
          view c (oneOf Target.rowLimit 0) oneSetting := by
  have hzero : 0 < Target.rowLimit := by decide
  have h := (admitted_oneOf hzero (Nat.le_refl _)).accepted rfl
  refine ⟨h, fun source hstride hsize c _ ⟨c', _, hunique⟩ => ?_⟩
  have h' := h.withSource hstride (hsize.trans (RowBuffer.size_blank (.inr Nat.one_pos)).symm)
  have hmany : Target.rowLimit ≤ (oneOf Target.rowLimit 0).rows :=
    Nat.le_of_eq (rows_oneOf hzero (Nat.le_refl _)).symm
  have hsame (b : UInt8) : Coins.flat Target.rowLimit b = c' :=
    hunique _ ⟨Coins.cover_flat .., (h'.view_eq_nil hmany).trans (h.view_eq_nil hmany).symm⟩
  exact Coins.flat_ne (Nat.ne_of_gt hzero) ((hsame 0).trans (hsame 1).symm)

end Run

end ObliviousRouting.Switching
