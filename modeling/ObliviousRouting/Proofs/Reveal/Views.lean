import Mathlib.Data.Vector.Defs
import Mathlib.Logic.Function.Basic
import Mathlib.Logic.Equiv.Basic
import ObliviousRouting.Proofs.Reveal.Courses

/-!
# What the choosing party sees

The messages to the choosing party are made of rows: the masked rows, and the pads that it asks for. They
say what it wants to know and nothing else: the rows that it picks are fixed by them, and whatever the
other rows are, there is exactly one choice of pads that gives these messages.
-/

namespace ObliviousRouting

open Bytes

/-- So many rows of one width. -/
structure Bytes.Table (n width : Nat) (rows : List Bytes) : Prop where
  length_eq : rows.length = n
  uniform : Uniform width rows

namespace Bytes.Table

variable {n width : Nat} {a b c : List Bytes}

theorem cons_iff {row : Bytes} : Table (n + 1) width (row :: a) ↔ row.length = width ∧ Table n width a := by
  constructor
  · rintro ⟨hlength, huniform⟩
    rw [Uniform.cons_iff] at huniform
    exact ⟨huniform.1, Nat.succ_inj.1 hlength, huniform.2⟩
  · rintro ⟨hrow, hlength, huniform⟩
    exact ⟨congrArg Nat.succ hlength, Uniform.cons_iff.2 ⟨hrow, huniform⟩⟩

theorem zipWith_xor (ha : Table n width a) (hb : Table n width b) :
    Table n width (List.zipWith Bytes.xor a b) :=
  ⟨by rw [List.length_zipWith, ha.length_eq, hb.length_eq, Nat.min_self], ha.uniform.zipWith_xor b⟩

theorem pick {choices : List Bool} (hchoices : choices.length = n) (ha : Table n width a)
    (hb : Table n width b) : Table n width (Reveal.pick choices a b) :=
  ⟨Reveal.length_pick hchoices ha.length_eq hb.length_eq, Reveal.uniform_pick ha.uniform hb.uniform⟩

theorem batch (ha : Table n width a) (size : BatchSize) (k : Nat) :
    Table (min (k * size.step + size.step) n - k * size.step) width (size.batch a k) :=
  ⟨BatchSize.length_batch_eq ha.length_eq, ha.uniform.mono (BatchSize.batch_subset _ _)⟩

theorem getElem_length (ha : Table n width a) {i : Nat} (hi : i < a.length) : a[i].length = width :=
  ha.uniform.getElem hi

/-- A mask can be brought to the other side, row by row. -/
theorem zipWith_xor_eq_iff (ha : Table n width a) (hb : Table n width b) (hc : Table n width c) :
    List.zipWith Bytes.xor a b = c ↔ b = List.zipWith Bytes.xor c a := by
  have hac := (hc.zipWith_xor ha).length_eq
  have hab := (ha.zipWith_xor hb).length_eq
  constructor
  · intro h
    subst h
    apply List.ext_getElem
    · rw [hb.length_eq, hac]
    · intro i hi _
      have hi' : i < a.length := by rw [ha.length_eq, ← hb.length_eq]; exact hi
      have hlength : a[i].length = b[i].length := by rw [ha.getElem_length, hb.getElem_length]
      rw [List.getElem_zipWith, List.getElem_zipWith, Bytes.xor_comm hlength, xor_xor_cancel]
  · intro h
    subst h
    apply List.ext_getElem
    · rw [hab, hc.length_eq]
    · intro i _ hi
      rw [List.getElem_zipWith, List.getElem_zipWith, Bytes.xor_comm, xor_xor_cancel]
      rw [length_xor, ha.getElem_length, hc.getElem_length]

theorem flatten_inj (ha : Table n width a) (hb : Table n width b) (h : a.flatten = b.flatten) : a = b := by
  rw [← ha.uniform.pieces_flatten, ← hb.uniform.pieces_flatten, ha.length_eq, hb.length_eq, h]

theorem length_flatten (ha : Table n width a) : a.flatten.length = n * width := by
  rw [ha.uniform.length_flatten, ha.length_eq]

theorem eq_of_batches (size : BatchSize) (ha : Table n width a) (hb : Table n width b)
    (h : ∀ k < size.count n, (size.batch a k).flatten = (size.batch b k).flatten) : a = b := by
  apply BatchSize.eq_of_batch_eq (b := size) ha.length_eq hb.length_eq
  exact fun k hk => (ha.batch size k).flatten_inj (hb.batch size k) (h k hk)

end Bytes.Table

theorem Bytes.table_pieces {n width : Nat} {bytes : Bytes} (h : bytes.length = n * width) :
    Table n width (pieces width n bytes) :=
  ⟨length_pieces .., uniform_pieces (Nat.le_of_eq h.symm)⟩

theorem Bytes.pieces_eq_iff {n width : Nat} {bytes : Bytes} {rows : List Bytes}
    (h : bytes.length = n * width) (hrows : Table n width rows) :
    pieces width n bytes = rows ↔ bytes = rows.flatten := by
  constructor
  · intro heq
    rw [← heq, flatten_pieces_of_length h]
  · intro heq
    rw [heq, ← hrows.length_eq]
    exact hrows.uniform.pieces_flatten

namespace Reveal

variable {choices flips : List Bool} {n width : Nat} {size : BatchSize}
  {rows₀ rows₁ pads₀ pads₁ rows₀' rows₁' pads₀' pads₁' : List Bytes}

/-! ### Rows -/

/-- The masked rows for one value of the blinded choice. -/
def maskedRows (flips : List Bool) (rows rows' pads : List Bytes) : List Bytes :=
  List.zipWith Bytes.xor (pick flips rows rows') pads

theorem table_maskedRows (hflips : flips.length = n) (h₀ : Table n width rows₀)
    (h₁ : Table n width rows₁) (hpads₀ : Table n width pads₀) :
    Table n width (maskedRows flips rows₀ rows₁ pads₀) :=
  (h₀.pick hflips h₁).zipWith_xor hpads₀

/-- Rows are masked to given ones by one choice of pads. -/
theorem maskedRows_eq_iff (hflips : flips.length = n) (h₀ : Table n width rows₀)
    (h₁ : Table n width rows₁) (hpads₀ : Table n width pads₀) {masked : List Bytes}
    (hmasked : Table n width masked) : maskedRows flips rows₀ rows₁ pads₀ = masked ↔
      pads₀ = List.zipWith Bytes.xor masked (pick flips rows₀ rows₁) :=
  (h₀.pick hflips h₁).zipWith_xor_eq_iff hpads₀ hmasked

/-- The masked rows for both values of the blinded choice stand one after the other. -/
theorem maskPairs_flatten (hflips : flips.length = n) (h₀ : Table n width rows₀)
    (h₁ : Table n width rows₁) (hpads₀ : Table n width pads₀) (hpads₁ : Table n width pads₁)
    (hwidth : 0 < width) :
    maskPairs flips rows₀.flatten rows₁.flatten pads₀.flatten pads₁.flatten width =
      (maskedRows flips rows₀ rows₁ pads₀).flatten ++ (maskedRows flips rows₁ rows₀ pads₁).flatten := by
  have hpicked := h₀.pick hflips h₁
  have hpicked' := h₁.pick hflips h₀
  rw [maskPairs, select_flatten h₀.uniform h₁.uniform hwidth, select_flatten h₁.uniform h₀.uniform hwidth,
    hpicked.uniform.xor_flatten hpads₀.uniform (hpicked.length_eq.trans hpads₀.length_eq.symm),
    hpicked'.uniform.xor_flatten hpads₁.uniform (hpicked'.length_eq.trans hpads₁.length_eq.symm),
    maskedRows, maskedRows]

/-- The masked rows and the pads that are asked for give the wanted rows. -/
theorem wanted_eq (hchoices : choices.length = n) (hflips : flips.length = n)
    (h₀ : Table n width rows₀) (h₁ : Table n width rows₁) (hpads₀ : Table n width pads₀)
    (hpads₁ : Table n width pads₁) :
    List.zipWith Bytes.xor (pick (blindChoices choices flips) (maskedRows flips rows₀ rows₁ pads₀)
        (maskedRows flips rows₁ rows₀ pads₁)) (pick (blindChoices choices flips) pads₀ pads₁) =
      pick choices rows₀ rows₁ := by
  have hblinded := length_blindChoices hchoices hflips
  rw [maskedRows, maskedRows, pick_xor_pick (length_pick hflips h₀.length_eq h₁.length_eq)
      (length_pick hflips h₁.length_eq h₀.length_eq) hpads₀.length_eq hpads₁.length_eq hblinded,
    pick_blind (hflips.trans hchoices.symm) (h₀.length_eq.trans hchoices.symm)
      (h₁.length_eq.trans hchoices.symm)]

/-- The same is seen if and only if the same rows are wanted, and the pads make up for the others. -/
theorem view_eq_iff (hchoices : choices.length = n) (hflips : flips.length = n)
    (h₀ : Table n width rows₀) (h₁ : Table n width rows₁) (hpads₀ : Table n width pads₀)
    (hpads₁ : Table n width pads₁) (h₀' : Table n width rows₀') (h₁' : Table n width rows₁')
    (hpads₀' : Table n width pads₀') (hpads₁' : Table n width pads₁') :
    (maskedRows flips rows₀' rows₁' pads₀' = maskedRows flips rows₀ rows₁ pads₀ ∧
      maskedRows flips rows₁' rows₀' pads₁' = maskedRows flips rows₁ rows₀ pads₁ ∧
        pick (blindChoices choices flips) pads₀' pads₁' = pick (blindChoices choices flips) pads₀ pads₁) ↔
      pick choices rows₀' rows₁' = pick choices rows₀ rows₁ ∧
        pads₀' = List.zipWith Bytes.xor (maskedRows flips rows₀ rows₁ pads₀) (pick flips rows₀' rows₁') ∧
          pads₁' = List.zipWith Bytes.xor (maskedRows flips rows₁ rows₀ pads₁)
            (pick flips rows₁' rows₀') := by
  have hblinded := length_blindChoices hchoices hflips
  have hmasked₀ := table_maskedRows hflips h₀ h₁ hpads₀
  have hmasked₁ := table_maskedRows hflips h₁ h₀ hpads₁
  have hwanted := wanted_eq hchoices hflips h₀ h₁ hpads₀ hpads₁
  have hwanted' := wanted_eq hchoices hflips h₀' h₁' hpads₀' hpads₁'
  rw [← maskedRows_eq_iff hflips h₀' h₁' hpads₀' hmasked₀,
    ← maskedRows_eq_iff hflips h₁' h₀' hpads₁' hmasked₁]
  constructor
  · rintro ⟨hrows₀, hrows₁, hpads⟩
    rw [hrows₀, hrows₁, hpads] at hwanted'
    exact ⟨hwanted'.symm.trans hwanted, hrows₀, hrows₁⟩
  · rintro ⟨hpick, hrows₀, hrows₁⟩
    refine ⟨hrows₀, hrows₁, ?_⟩
    rw [hrows₀, hrows₁, hpick] at hwanted'
    have hmasked := hmasked₀.pick hblinded hmasked₁
    have hpicked := h₀.pick hchoices h₁
    rw [(hmasked.zipWith_xor_eq_iff (hpads₀.pick hblinded hpads₁) hpicked).1 hwanted,
      (hmasked.zipWith_xor_eq_iff (hpads₀'.pick hblinded hpads₁') hpicked).1 hwanted']

/-! ### Messages -/

/-- The pads of all batches, cut from two strings. -/
def Pads.ofBytes (pad₀ pad₁ : Bytes) : Pads := fun full k length =>
  ((pad₀.drop (k * full)).take length, (pad₁.drop (k * full)).take length)

/-- What is cut from a string of rows for a batch are the rows of the batch. -/
theorem take_drop_flatten {rows : List Bytes} (h : Table n width rows) (k : Nat) :
    (rows.flatten.drop (k * (size.step * width))).take (batchLength n width size k) =
      (size.batch rows k).flatten := by
  rw [← Nat.mul_assoc, h.uniform.drop_flatten, batchLength, (h.uniform.drop _).take_flatten,
    ← BatchSize.part_eq_batch h.length_eq]
  rfl

theorem batchPads_ofBytes (h₀ : Table n width pads₀) (h₁ : Table n width pads₁) (k : Nat) :
    batchPads (Pads.ofBytes pads₀.flatten pads₁.flatten) n width size k =
      ((size.batch pads₀ k).flatten, (size.batch pads₁ k).flatten) := by
  rw [batchPads, Pads.ofBytes, take_drop_flatten h₀, take_drop_flatten h₁]

theorem cover_ofBytes {pad₀ pad₁ : Bytes} (h₀ : pad₀.length = n * width)
    (h₁ : pad₁.length = n * width) : (Pads.ofBytes pad₀ pad₁).Cover n width size := by
  intro k _
  have ht₀ := table_pieces h₀
  have ht₁ := table_pieces h₁
  rw [← flatten_pieces_of_length h₀, ← flatten_pieces_of_length h₁, batchPads_ofBytes ht₀ ht₁]
  exact ⟨(ht₀.batch size k).length_flatten, (ht₁.batch size k).length_flatten⟩

/-- Strings for all batches can be joined to one string from which they are cut. -/
theorem exists_cut (pad : Nat → Bytes)
    (h : ∀ k < size.count n, (pad k).length = batchLength n width size k) :
    ∃ all : Bytes, all.length = n * width ∧ ∀ k < size.count n,
      (all.drop (k * (size.step * width))).take (batchLength n width size k) = pad k := by
  have hlength (m : Nat) (hm : m ≤ size.count n) :
      ((List.range m).flatMap pad).length = min (m * size.step) n * width := by
    induction m with
    | zero => rw [Nat.zero_mul, Nat.zero_min, Nat.zero_mul, List.range_zero, List.flatMap_nil, List.length_nil]
    | succ m ih =>
      rw [List.range_succ, List.flatMap_append, List.length_append, ih (Nat.le_of_succ_le hm),
        List.flatMap_singleton, h m hm, batchLength, ← Nat.add_mul, Nat.succ_mul]
      congr 1
      omega
  have hsplit {k m : Nat} (hk : k < m) :
      ∃ rest, (List.range m).flatMap pad = (List.range k).flatMap pad ++ (pad k ++ rest) := by
    induction m with
    | zero => exact absurd hk (Nat.not_lt_zero k)
    | succ m ih =>
      rw [List.range_succ, List.flatMap_append, List.flatMap_singleton]
      rcases Nat.lt_succ_iff_lt_or_eq.1 hk with hlt | rfl
      · obtain ⟨rest, hrest⟩ := ih hlt
        exact ⟨rest ++ pad m, by rw [hrest, List.append_assoc, List.append_assoc]⟩
      · exact ⟨[], by rw [List.append_nil]⟩
  refine ⟨(List.range (size.count n)).flatMap pad, ?_, fun k hk => ?_⟩
  · rw [hlength _ (Nat.le_refl _), Nat.min_eq_right (BatchSize.le_count_mul_step n)]
  · obtain ⟨rest, hrest⟩ := hsplit hk
    have hbefore : ((List.range k).flatMap pad).length = k * (size.step * width) := by
      rw [hlength k (Nat.le_of_lt hk), Nat.min_eq_left (Nat.le_of_lt (BatchSize.lt_count_iff.1 hk)),
        Nat.mul_assoc]
    rw [hrest, List.drop_left' hbefore, List.take_left' (h k hk)]

/-- Whatever pads there are, two strings have the same pads for all batches. -/
theorem Pads.Cover.exists_ofBytes {pads : Pads} (h : pads.Cover n width size) :
    ∃ pad₀ pad₁ : Bytes, pad₀.length = n * width ∧ pad₁.length = n * width ∧ ∀ k < size.count n,
      batchPads (.ofBytes pad₀ pad₁) n width size k = batchPads pads n width size k := by
  obtain ⟨pad₀, hlength₀, hcut₀⟩ := exists_cut (fun k => (batchPads pads n width size k).1) fun k hk =>
    (h k hk).1
  obtain ⟨pad₁, hlength₁, hcut₁⟩ := exists_cut (fun k => (batchPads pads n width size k).2) fun k hk =>
    (h k hk).2
  exact ⟨pad₀, pad₁, hlength₀, hlength₁, fun k hk => Prod.ext (hcut₀ k hk) (hcut₁ k hk)⟩

/-- A reveal looks at the pads of its batches only. -/
theorem timetable_congr {pads pads' : Pads}
    (h : ∀ k < size.count n, batchPads pads' n width size k = batchPads pads n width size k)
    (phase : String) (offering serving chooser : Nat) :
    timetable choices flips pads' rows₀ rows₁ n width size phase offering serving chooser =
      timetable choices flips pads rows₀ rows₁ n width size phase offering serving chooser := by
  have hpairs {k : Nat} (hk : k ∈ List.range (size.count n)) :
      pairsMessage flips pads' rows₀ rows₁ n width size k =
        pairsMessage flips pads rows₀ rows₁ n width size k := by
    rw [pairsMessage, pairsMessage, h k (List.mem_range.1 hk)]
  have hpads {k : Nat} (hk : k ∈ List.range (size.count n)) :
      padsMessage choices flips pads' n width size k = padsMessage choices flips pads n width size k := by
    rw [padsMessage, padsMessage, h k (List.mem_range.1 hk)]
  rw [timetable, timetable]
  congr 1
  · exact List.flatMap_congr fun k hk => by rw [hpairs hk]
  · exact List.flatMap_congr fun k hk => by rw [hpads hk]
  · exact List.flatMap_congr fun k hk => by rw [hpairs hk, hpads hk]

theorem pairsMessage_ofBytes (hflips : flips.length = n) (h₀ : Table n width rows₀)
    (h₁ : Table n width rows₁) (hpads₀ : Table n width pads₀) (hpads₁ : Table n width pads₁)
    (hwidth : 0 < width) (k : Nat) :
    pairsMessage flips (Pads.ofBytes pads₀.flatten pads₁.flatten) rows₀ rows₁ n width size k =
      (size.batch (maskedRows flips rows₀ rows₁ pads₀) k).flatten ++
        (size.batch (maskedRows flips rows₁ rows₀ pads₁) k).flatten := by
  have hbits : (size.batch flips k).length = min (k * size.step + size.step) n - k * size.step :=
    BatchSize.length_batch_eq hflips
  rw [pairsMessage, batchPads_ofBytes hpads₀ hpads₁, maskPairs_flatten hbits (h₀.batch size k)
    (h₁.batch size k) (hpads₀.batch size k) (hpads₁.batch size k) hwidth]
  simp only [maskedRows, BatchSize.batch_zipWith, batch_pick]

theorem padsMessage_ofBytes (hpads₀ : Table n width pads₀) (hpads₁ : Table n width pads₁)
    (hwidth : 0 < width) (k : Nat) :
    padsMessage choices flips (Pads.ofBytes pads₀.flatten pads₁.flatten) n width size k =
      (size.batch (pick (blindChoices choices flips) pads₀ pads₁) k).flatten := by
  rw [padsMessage, batchPads_ofBytes hpads₀ hpads₁, chosenPads,
    select_flatten (hpads₀.batch size k).uniform (hpads₁.batch size k).uniform hwidth, batch_pick]

/-- Two reveals have the same messages if and only if they have the same rows in them. -/
theorem messages_eq_iff (hflips : flips.length = n) (hchoices : choices.length = n)
    (h₀ : Table n width rows₀) (h₁ : Table n width rows₁) (hpads₀ : Table n width pads₀)
    (hpads₁ : Table n width pads₁) (h₀' : Table n width rows₀') (h₁' : Table n width rows₁')
    (hpads₀' : Table n width pads₀') (hpads₁' : Table n width pads₁') (hwidth : n = 0 ∨ 0 < width) :
    (∀ k < size.count n,
      pairsMessage flips (Pads.ofBytes pads₀'.flatten pads₁'.flatten) rows₀' rows₁' n width size k =
        pairsMessage flips (Pads.ofBytes pads₀.flatten pads₁.flatten) rows₀ rows₁ n width size k ∧
      padsMessage choices flips (Pads.ofBytes pads₀'.flatten pads₁'.flatten) n width size k =
        padsMessage choices flips (Pads.ofBytes pads₀.flatten pads₁.flatten) n width size k) ↔
      maskedRows flips rows₀' rows₁' pads₀' = maskedRows flips rows₀ rows₁ pads₀ ∧
        maskedRows flips rows₁' rows₀' pads₁' = maskedRows flips rows₁ rows₀ pads₁ ∧
          pick (blindChoices choices flips) pads₀' pads₁' =
            pick (blindChoices choices flips) pads₀ pads₁ := by
  have hblinded := length_blindChoices hchoices hflips
  have hmasked₀ := table_maskedRows hflips h₀ h₁ hpads₀
  have hmasked₁ := table_maskedRows hflips h₁ h₀ hpads₁
  have hmasked₀' := table_maskedRows hflips h₀' h₁' hpads₀'
  have hmasked₁' := table_maskedRows hflips h₁' h₀' hpads₁'
  have hpos {k : Nat} (hk : k < size.count n) : 0 < width := by
    refine hwidth.resolve_left fun hzero => ?_
    rw [hzero, BatchSize.lt_count_iff] at hk
    exact Nat.not_lt_zero _ hk
  constructor
  · intro h
    -- both halves of a message of pairs have the length of the batch
    have hpairs {k : Nat} (hk : k < size.count n) :
        (size.batch (maskedRows flips rows₀' rows₁' pads₀') k).flatten =
            (size.batch (maskedRows flips rows₀ rows₁ pads₀) k).flatten ∧
          (size.batch (maskedRows flips rows₁' rows₀' pads₁') k).flatten =
            (size.batch (maskedRows flips rows₁ rows₀ pads₁) k).flatten := by
      have hmessage := (h k hk).1
      rw [pairsMessage_ofBytes hflips h₀' h₁' hpads₀' hpads₁' (hpos hk),
        pairsMessage_ofBytes hflips h₀ h₁ hpads₀ hpads₁ (hpos hk)] at hmessage
      exact List.append_inj hmessage
        ((hmasked₀'.batch size k).length_flatten.trans (hmasked₀.batch size k).length_flatten.symm)
    refine ⟨hmasked₀'.eq_of_batches size hmasked₀ fun k hk => (hpairs hk).1,
      hmasked₁'.eq_of_batches size hmasked₁ fun k hk => (hpairs hk).2,
      (hpads₀'.pick hblinded hpads₁').eq_of_batches size (hpads₀.pick hblinded hpads₁)
        fun k hk => ?_⟩
    have hpads := (h k hk).2
    rwa [padsMessage_ofBytes hpads₀' hpads₁' (hpos hk), padsMessage_ofBytes hpads₀ hpads₁ (hpos hk)] at hpads
  · rintro ⟨hrows₀, hrows₁, hpads⟩ k hk
    rw [pairsMessage_ofBytes hflips h₀' h₁' hpads₀' hpads₁' (hpos hk),
      pairsMessage_ofBytes hflips h₀ h₁ hpads₀ hpads₁ (hpos hk), padsMessage_ofBytes hpads₀' hpads₁' (hpos hk),
      padsMessage_ofBytes hpads₀ hpads₁ (hpos hk), hrows₀, hrows₁, hpads]
    exact ⟨rfl, rfl⟩

/-! ### What the serving party sees -/

theorem blindChoices_blindChoices (h : flips.length = choices.length) :
    blindChoices choices (blindChoices choices flips) = flips := by
  induction choices generalizing flips with
  | nil => exact (List.eq_nil_of_length_eq_zero h).symm
  | cons choice choices ih =>
    obtain ⟨flip, flips, rfl⟩ := List.exists_cons_of_length_eq_add_one h
    change Bool.xor choice (Bool.xor choice flip) :: blindChoices choices (blindChoices choices flips) = _
    rw [ih (Nat.succ_inj.1 h), ← Bool.xor_assoc, Bool.xor_self, Bool.false_xor]

/-- Blinding choices, as a function of the flips, undoes itself. -/
def blind (choices : List Bool) (h : choices.length = n) : Equiv.Perm (List.Vector Bool n) :=
  Function.Involutive.toPerm
    (fun flips => ⟨blindChoices choices flips.toList, length_blindChoices h flips.toList_length⟩)
    fun flips => Subtype.ext (blindChoices_blindChoices (flips.toList_length.trans h.symm))

/-- For other choices there are other flips that blind them alike. -/
def otherFlips {choices' : List Bool} (h : choices.length = n) (h' : choices'.length = n) :
    Equiv.Perm (List.Vector Bool n) := (blind choices h).trans (blind choices' h')

theorem blindChoices_otherFlips {choices' : List Bool} (h : choices.length = n)
    (h' : choices'.length = n) (flips : List.Vector Bool n) :
    blindChoices choices' (otherFlips h h' flips).toList = blindChoices choices flips.toList :=
  blindChoices_blindChoices ((length_blindChoices h flips.toList_length).trans h'.symm)

end Reveal

end ObliviousRouting
