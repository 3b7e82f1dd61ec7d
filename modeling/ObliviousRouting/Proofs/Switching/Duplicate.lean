import Mathlib.Data.List.GetD
import ObliviousRouting.Proofs.Switching.State
import ObliviousRouting.Switching.Duplicate

/-!
# Duplicating

What the planner learns for a row turns its share into one that belongs to the helper's fresh share: of
the row itself, or of the row before, which has been dealt with already. So the rows that both share after
this stage follow from the first one on: a copy is what the row before it is.
-/

namespace ObliviousRouting

open Bytes

namespace RowBuffer.Holds

variable {b c : RowBuffer} {width : Nat} {rows rows' : List Bytes}

theorem xor (h : b.Holds width rows) (h' : c.Holds width rows') (hlength : rows.length = rows'.length) :
    (b.xor c).Holds width (List.zipWith Bytes.xor rows rows') := by
  refine h.of_bytes_eq (c := b.xor c) h.stride_eq ?_ ?_ ?_
  · change (b.bytes.xor c.bytes).toArray.toList = _
    rw [h.bytes_eq, h'.bytes_eq, h.uniform.xor_flatten h'.uniform hlength]
  · exact h.uniform.zipWith_xor _
  · rw [List.length_zipWith, ← hlength, Nat.min_self]

/-- A row of zeros in front, and the last row dropped. -/
theorem moveDown (h : b.Holds width rows) :
    b.moveDown.Holds width ((Bytes.zeros width :: rows).take rows.length) := by
  have huniform : Uniform width (Bytes.zeros width :: rows) :=
    Uniform.cons_iff.2 ⟨length_zeros width, h.uniform⟩
  refine h.of_bytes_eq (c := b.moveDown) h.stride_eq ?_ ?_ ?_
  · rw [← huniform.take_flatten, List.flatten_cons, ← h.bytes_eq, ← h.data_size_eq, ← h.stride_eq]
    simp only [bytes, RowBuffer.moveDown, Array.toList_extract, Array.toList_append,
      Array.toList_replicate, List.extract_eq_take_drop, List.drop_zero, Nat.sub_zero, Bytes.zeros]
  · exact huniform.take _
  · rw [List.length_take, List.length_cons]
    omega

/-- Each row of the other buffer goes into its row of this one, and the rows around them stay. -/
theorem xorRows (h : b.Holds width rows) (h' : c.Holds width rows') (i j count : Nat)
    (hi : i + count ≤ rows.length) (hj : j + count ≤ rows'.length) :
    ∃ d, c.xorRows i j count b = .ok d ∧ d.Holds width (rows.take i ++
      List.zipWith Bytes.xor (rows.drop i) ((rows'.drop j).take count) ++ rows.drop (i + count)) := by
  induction count generalizing i j b rows with
  | zero =>
    refine ⟨b, rfl, ?_⟩
    rw [List.take_zero, List.zipWith_nil_right, List.append_nil, Nat.add_zero, List.take_append_drop]
    exact h
  | succ count ih =>
    have hlt : i < rows.length := by omega
    have hlt' : j < rows'.length := by omega
    obtain ⟨d, hd, hholds⟩ := h.xorRow hlt rows'[j]
    have hset : i + 1 + count ≤ (rows.set i (rows[i].xor rows'[j])).length := by
      rw [List.length_set]
      omega
    obtain ⟨e, he, hrows⟩ := ih hholds (i + 1) (j + 1) hset (by omega)
    refine ⟨e, ?_, ?_⟩
    · rw [RowBuffer.xorRows, h'.row_eq hlt']
      exact (congrArg (· >>= c.xorRows (i + 1) (j + 1) count) hd).trans he
    · rw [List.drop_set_of_lt (by omega), List.drop_set_of_lt (by omega),
        List.take_succ_eq_append_getElem (by rwa [List.length_set]), List.getElem_set_self,
        List.take_set_of_le (Nat.le_refl i)] at hrows
      rw [List.drop_eq_getElem_cons hlt, List.drop_eq_getElem_cons hlt', List.take_succ_cons,
        List.zipWith_cons_cons, show i + (count + 1) = i + 1 + count by omega]
      simpa only [List.append_assoc, List.cons_append, List.nil_append] using hrows

/-- A row that has one before it can be made a copy of that one. -/
theorem repeatRow (h : b.Holds width rows) {i : Nat} (hi : i + 1 < rows.length) :
    ∃ c, b.repeatRow (i + 1) = .ok c ∧ c.Holds width (rows.set (i + 1) rows[i]) := by
  rw [RowBuffer.repeatRow, Size.sub_eq_ok (Nat.le_add_left 1 i)]
  exact h.copyRow (Nat.lt_of_succ_lt hi) hi

theorem setRows_all (h : b.Holds width rows) {new : Bytes} (hnew : new.length = rows.length * width) :
    ∃ c, b.setRows 0 b.size new = .ok c ∧ c.Holds width (Bytes.pieces width rows.length new) := by
  have hpieces : (Bytes.pieces width rows.length new).flatten = new := by
    rw [flatten_pieces, ← hnew, List.take_length]
  obtain ⟨c, hc, hholds⟩ := h.setRows
    (uniform_pieces (Nat.le_of_eq hnew.symm)) (by rw [length_pieces, Nat.zero_add]) (Nat.le_refl _)
  rw [hpieces] at hc
  rw [List.take_zero, List.nil_append, List.drop_length, List.append_nil] at hholds
  exact ⟨c, h.size_eq ▸ hc, hholds⟩

end RowBuffer.Holds

namespace Switching.Duplicate

open Role

/-! ### Rows -/

def firstRows (own fresh : List Bytes) : List Bytes := List.zipWith Bytes.xor own fresh

def secondRows (width : Nat) (fresh : List Bytes) : List Bytes :=
  List.zipWith Bytes.xor fresh ((zeros width :: fresh).take fresh.length)

variable {own fresh rows : List Bytes} {copies : List Bool} {width n : Nat}

theorem length_firstRows (hown : own.length = n) (hfresh : fresh.length = n) :
    (firstRows own fresh).length = n := by
  rw [firstRows, List.length_zipWith, hown, hfresh, Nat.min_self]

theorem length_secondRows (hfresh : fresh.length = n) : (secondRows width fresh).length = n := by
  rw [secondRows, List.length_zipWith, List.length_take, List.length_cons, hfresh]
  omega

theorem holds_pairs {a b : RowBuffer} (ha : a.Holds width own) (hb : b.Holds width fresh)
    (hlength : own.length = fresh.length) :
    (pairs a b).1.Holds width (firstRows own fresh) ∧
      (pairs a b).2.Holds width (secondRows width fresh) := by
  refine ⟨ha.xor hb hlength, hb.xor hb.moveDown ?_⟩
  rw [List.length_take, List.length_cons]
  omega

/-- The second rows of the pairs, made one after the other. -/
theorem xorRows_secondRows {b : RowBuffer} (hb : b.Holds width fresh) :
    ∃ second, b.xorRows 1 0 (fresh.length - 1) b = .ok second ∧
      second.Holds width (secondRows width fresh) := by
  cases fresh with
  | nil => exact ⟨b, rfl, hb⟩
  | cons row rows =>
    obtain ⟨second, hmake, hholds⟩ := hb.xorRows hb 1 0 rows.length (by rw [List.length_cons]; omega)
      (by rw [List.length_cons]; omega)
    refine ⟨second, hmake, ?_⟩
    rw [show 1 + rows.length = (row :: rows).length from Nat.add_comm 1 _, List.drop_length,
      List.append_nil] at hholds
    rw [secondRows, List.length_cons, List.take_succ_cons, List.zipWith_cons_cons, xor_zeros]
    exact hholds

/-- Row by row, the pairs are made without a fault. -/
theorem makePairs_eq {a b : RowBuffer} (ha : a.Holds width own) (hb : b.Holds width fresh)
    (hlength : own.length = fresh.length) : makePairs a b = .ok (pairs a b) := by
  obtain ⟨hpairs₀, hpairs₁⟩ := holds_pairs ha hb hlength
  obtain ⟨second, hsecond, hholds₁⟩ := xorRows_secondRows hb
  obtain ⟨first, hfirst, hholds₀⟩ := ha.xorRows hb 0 0 own.length (by omega) (by omega)
  rw [Nat.zero_add, List.drop_length, List.append_nil, List.take_zero, List.nil_append, List.drop_zero,
    List.drop_zero, hlength, List.take_length] at hholds₀
  rw [makePairs, ha.size_eq, hfirst, hlength, hsecond, hholds₀.eq hpairs₀, hholds₁.eq hpairs₁]
  rfl

theorem getD_firstRows (hown : own.length = n) (hfresh : fresh.length = n) {i : Nat} (hi : i < n) :
    (firstRows own fresh).getD i [] = (own.getD i []).xor (fresh.getD i []) := by
  have hi₁ : i < own.length := hown ▸ hi
  have hi₂ : i < fresh.length := hfresh ▸ hi
  simp only [firstRows, List.getD_eq_getElem?_getD, List.getElem?_zipWith,
    List.getElem?_eq_getElem hi₁, List.getElem?_eq_getElem hi₂, Option.getD_some]

/-- The second row of a pair has the fresh share of the row before mixed in. -/
theorem getD_secondRows (hfresh : fresh.length = n) {i : Nat} (hi : i + 1 < n) :
    (secondRows width fresh).getD (i + 1) [] = (fresh.getD (i + 1) []).xor (fresh.getD i []) := by
  have hi₁ : i + 1 < fresh.length := hfresh ▸ hi
  have hi₂ : i < fresh.length := Nat.lt_of_succ_lt hi₁
  simp only [secondRows, List.getD_eq_getElem?_getD, List.getElem?_zipWith,
    List.getElem?_take_of_lt hi₁, List.getElem?_cons_succ, List.getElem?_eq_getElem hi₁,
    List.getElem?_eq_getElem hi₂, Option.getD_some]

theorem getD_pick {rows₀ rows₁ : List Bytes} (hcopies : copies.length = n) (h₀ : rows₀.length = n)
    (h₁ : rows₁.length = n) {i : Nat} (hi : i < n) :
    (Reveal.pick copies rows₀ rows₁).getD i [] =
      if copies.getD i false then rows₁.getD i [] else rows₀.getD i [] := by
  have hpick : i < (Reveal.pick copies rows₀ rows₁).length := by
    rw [Reveal.length_pick hcopies h₀ h₁]
    exact hi
  simp only [List.getD_eq_getElem?_getD, List.getElem?_eq_getElem hpick,
    List.getElem?_eq_getElem (hcopies ▸ hi : i < copies.length),
    List.getElem?_eq_getElem (h₀ ▸ hi : i < rows₀.length),
    List.getElem?_eq_getElem (h₁ ▸ hi : i < rows₁.length), Option.getD_some]
  exact Reveal.getElem_pick hpick _ _ _

/-- Each of the rows from number `i` on is its row of `rows`, or the row before it, with what was learned. -/
def Resolved (learned : List Bytes) (i : Nat) (copies : List Bool) (rows rows' : List Bytes) : Prop :=
  rows'.length = rows.length ∧ (∀ j < i, rows'.getD j [] = rows.getD j []) ∧
    ∀ j < copies.length, rows'.getD (i + j) [] =
      (if copies.getD j false then rows'.getD (i + j - 1) [] else rows.getD (i + j) []).xor
        (learned.getD (i + j) [])

theorem resolve_cons (learned : RowBuffer) (i : Nat) (copy : Bool) (copies : List Bool) (b : RowBuffer) :
    resolve learned i (copy :: copies) b =
      ((if copy then b.repeatRow i else .ok b) >>= fun b => learned.row i >>= fun row =>
        b.xorRow i row >>= resolve learned (i + 1) copies) := by
  cases copy <;> rfl

/-- The row that is to be mixed with what was learned has come to its place. -/
theorem exists_copied {b : RowBuffer} {i : Nat} (hb : b.Holds width rows) (hi : i < rows.length)
    (copy : Bool) (hfirst : i = 0 → copy = false) :
    ∃ c row, (if copy then b.repeatRow i else .ok b) = .ok c ∧ c.Holds width (rows.set i row) ∧
      row = if copy then rows.getD (i - 1) [] else rows.getD i [] := by
  cases copy with
  | true =>
    cases i with
    | zero => exact nomatch hfirst rfl
    | succ i =>
      obtain ⟨c, hc, hholds⟩ := hb.repeatRow hi
      refine ⟨c, rows[i], hc, hholds, ?_⟩
      rw [if_pos rfl, Nat.add_sub_cancel, List.getD_eq_getElem _ _ (Nat.lt_of_succ_lt hi)]
  | false =>
    refine ⟨b, rows[i], rfl, by rwa [List.set_getElem_self], ?_⟩
    rw [if_neg Bool.false_ne_true, List.getD_eq_getElem _ _ hi]

theorem resolve_spec {learned b : RowBuffer} {i : Nat} {new : List Bytes}
    (hlearned : learned.Holds width new) (hb : b.Holds width rows) (hnew : new.length = rows.length)
    (hcount : i + copies.length = rows.length) (hfirst : i = 0 → copies.getD 0 false = false) :
    ∃ c rows', resolve learned i copies b = .ok c ∧ c.Holds width rows' ∧
      Resolved new i copies rows rows' := by
  induction copies generalizing i b rows with
  | nil => exact ⟨b, rows, rfl, hb, rfl, fun _ _ => rfl, fun j hj => nomatch hj⟩
  | cons copy copies ih =>
    rw [List.length_cons] at hcount
    have hi : i < rows.length := by omega
    obtain ⟨b₁, row, hb₁, hholds₁, hrow⟩ := exists_copied hb hi copy hfirst
    have hi₁ : i < (rows.set i row).length := by rwa [List.length_set]
    have hi₂ : i < new.length := hnew ▸ hi
    obtain ⟨b₂, hb₂, hholds₂⟩ := hholds₁.xorRow hi₁ new[i]
    rw [List.getElem_set_self, List.set_set] at hholds₂
    have hother {j : Nat} (hne : i ≠ j) :
        (rows.set i (row.xor new[i])).getD j [] = rows.getD j [] := by
      rw [List.getD_eq_getElem?_getD, List.getElem?_set_ne hne, ← List.getD_eq_getElem?_getD]
    obtain ⟨c, rows', hc, hholds, hlength, hbefore, hafter⟩ := ih (i := i + 1) hholds₂
      (by rw [List.length_set, hnew]) (by rw [List.length_set]; omega) (fun h => nomatch h)
    refine ⟨c, rows', ?_, hholds, by rw [hlength, List.length_set], ?_, ?_⟩
    · rw [resolve_cons, hb₁, hlearned.row_eq hi₂]
      exact (congrArg (· >>= resolve learned (i + 1) copies) hb₂).trans hc
    · intro j hj
      rw [hbefore j (by omega), hother (Nat.ne_of_gt hj)]
    · intro j hj
      cases j with
      | zero =>
        rw [Nat.add_zero, List.getD_cons_zero, hbefore i (Nat.lt_succ_self i),
          List.getD_eq_getElem?_getD, List.getElem?_set_self hi, Option.getD_some, hrow,
          List.getD_eq_getElem new _ hi₂]
        cases copy with
        | false => rfl
        | true =>
          have hpos : i ≠ 0 := fun hzero => by
            have hfalse := hfirst hzero
            cases hfalse
          rw [if_pos rfl, if_pos rfl, hbefore (i - 1) (by omega), hother (by omega)]
      | succ j =>
        have hrest := hafter j (by rw [List.length_cons] at hj; omega)
        rw [hother (by omega)] at hrest
        rw [List.getD_cons_succ, show i + (j + 1) = i + 1 + j by omega]
        exact hrest

/-- Only one list of rows comes of what was learned. -/
theorem Resolved.eq {learned rows rows₁ rows₂ : List Bytes} {copies : List Bool}
    (h₁ : Resolved learned 0 copies rows rows₁) (h₂ : Resolved learned 0 copies rows rows₂)
    (hcopies : copies.length = rows.length) (hfirst : copies.getD 0 false = false) : rows₁ = rows₂ := by
  have hrow : ∀ j < copies.length, rows₁.getD j [] = rows₂.getD j [] := by
    intro j
    induction j with
    | zero =>
      intro hj
      rw [← Nat.zero_add 0, h₁.2.2 0 hj, h₂.2.2 0 hj, hfirst]
      rfl
    | succ j ih =>
      intro hj
      have hbefore := ih (Nat.lt_of_succ_lt hj)
      rw [← Nat.zero_add (j + 1), h₁.2.2 _ hj, h₂.2.2 _ hj, Nat.zero_add, Nat.add_sub_cancel, hbefore]
  apply List.ext_getElem (h₁.1.trans h₂.1.symm)
  intro j hj hj'
  rw [← List.getD_eq_getElem _ [] hj, ← List.getD_eq_getElem _ [] hj']
  exact hrow j (hcopies.symm ▸ h₁.1 ▸ hj)

/-- A mask that is in the rows of the planner and of the helper makes no difference to what they share. -/
theorem xor_xor_xor {a b c : Bytes} (hab : a.length = b.length) (hbc : b.length = c.length) :
    (a.xor (b.xor c)).xor c = a.xor b := by
  rw [← xor_assoc hab hbc, xor_xor_cancel]

/-- What planner and helper share after this stage: what they shared before, or a copy of the row before. -/
theorem shared {rows' : List Bytes} (hrows : Uniform width rows) (hown : Uniform width own)
    (hfresh : Uniform width fresh) (hrows' : Uniform width rows') (hn : rows.length = n)
    (hn₁ : own.length = n) (hn₂ : fresh.length = n) (hcopies : copies.length = n)
    (hfirst : copies.getD 0 false = false)
    (h : Resolved (Reveal.pick copies (firstRows own fresh) (secondRows width fresh)) 0 copies rows rows')
    {i : Nat} (hi : i < n) :
    (rows'.getD i []).xor (fresh.getD i []) =
      if copies.getD i false then (rows'.getD (i - 1) []).xor (fresh.getD (i - 1) [])
      else (rows.getD i []).xor (own.getD i []) := by
  have hlength {l : List Bytes} (hl : Uniform width l) (hln : l.length = n) {j : Nat} (hj : j < n) :
      (l.getD j []).length = width := by
    rw [List.getD_eq_getElem _ _ (hln ▸ hj)]
    exact hl.getElem _
  have hn' : rows'.length = n := h.1.trans hn
  have hrow := h.2.2 i (hcopies ▸ hi)
  rw [Nat.zero_add, getD_pick hcopies (length_firstRows hn₁ hn₂) (length_secondRows hn₂) hi] at hrow
  rw [hrow]
  cases hcopy : copies.getD i false with
  | false =>
    simp only [Bool.false_eq_true, if_false]
    rw [getD_firstRows hn₁ hn₂ hi]
    apply xor_xor_xor
    · rw [hlength hrows hn hi, hlength hown hn₁ hi]
    · rw [hlength hown hn₁ hi, hlength hfresh hn₂ hi]
  | true =>
    simp only [if_true]
    cases i with
    | zero =>
      rw [hfirst] at hcopy
      cases hcopy
    | succ i =>
      have hi' : i < n := Nat.lt_of_succ_lt hi
      rw [getD_secondRows hn₂ hi, Nat.add_sub_cancel,
        xor_comm (a := fresh.getD (i + 1) [])]
      · apply xor_xor_xor
        · rw [hlength hrows' hn' hi', hlength hfresh hn₂ hi']
        · rw [hlength hfresh hn₂ hi', hlength hfresh hn₂ hi]
      · rw [hlength hfresh hn₂ hi', hlength hfresh hn₂ hi]

/-! ### The courses -/

section Courses

variable (x : Expansion) (parties : Parties) (tape tape' tape'' : Tape) (copies : List Bool)
  (own : List Bytes) (n width : Nat) (size : BatchSize)

/-- The seed of the flips, from the tapes of planner and helper. -/
def flipsSeed : Seed := tape.secret.1.xor tape''.secret.1

/-- The seed of the pads, from the tapes of owner and helper. The helper has agreed on flips before. -/
def padsSeed : Seed := tape'.secret.1.xor tape''.secret.2.secret.1

def helperTape : Tape := tape''.secret.2.secret.2

/-- The helper's fresh rows. -/
def freshRows : List Bytes := Bytes.pieces width n (x.fresh (helperTape tape'') (n * width)).1

/-- What all parts do in this stage. -/
def timetable : Timetable :=
  (CoinToss.timetable parties.planner parties.helper parties.owner tape.secret.1 tape''.secret.1
    "duplicate flips").andThen <|
  (CoinToss.timetable parties.owner parties.helper parties.planner tape'.secret.1
    tape''.secret.2.secret.1 "duplicate pads").andThen
  (Reveal.timetable copies (x.flips (flipsSeed tape tape'') n) (x.pads (padsSeed tape' tape''))
    (firstRows own (freshRows x tape'' n width)) (secondRows width (freshRows x tape'' n width)) n width
    size "duplicate" parties.helper parties.owner parties.planner)

variable {x parties tape tape' tape'' copies own n width size} {S : List Nat}

theorem length_freshRows : (freshRows x tape'' n width).length = n := length_pieces ..

theorem uniform_freshRows (hx : x.Lawful n width size) : Uniform width (freshRows x tape'' n width) :=
  uniform_pieces (Nat.le_of_eq (hx.length_fresh _).symm)

variable (h : Timetable.Apart S parties.planner parties.owner parties.helper)
include h

theorem phase_timetable :
    (timetable x parties tape tape' tape'' copies own n width size).Phase 1024 S := by
  apply Timetable.Phase.andThen
  · exact CoinToss.phase_timetable h.swap.rotate (by decide) ..
  apply Timetable.Phase.andThen
  · exact CoinToss.phase_timetable h.rotate (by decide) ..
  · exact Reveal.phase_timetable h.rotate.swap (by decide) _

theorem timetable_planner :
    timetable x parties tape tape' tape'' copies own n width size parties.planner =
      CoinToss.course parties.planner parties.helper tape.secret.1 tape''.secret.1 "duplicate flips" ++
        Reveal.chooseCourse copies (x.flips (flipsSeed tape tape'') n) (x.pads (padsSeed tape' tape''))
          (firstRows own (freshRows x tape'' n width)) (secondRows width (freshRows x tape'' n width)) n
          width size parties.helper parties.owner "duplicate" := by
  rw [timetable, Timetable.andThen, Timetable.andThen, CoinToss.timetable, Timetable.trio_first,
    CoinToss.timetable, Timetable.trio_third h.first_ne_second.symm h.first_ne_third.symm,
    List.nil_append, Reveal.timetable,
    Timetable.trio_third h.first_ne_third.symm h.first_ne_second.symm]

theorem timetable_owner :
    timetable x parties tape tape' tape'' copies own n width size parties.owner =
      CoinToss.course parties.owner parties.helper tape'.secret.1 tape''.secret.2.secret.1
          "duplicate pads" ++
        Reveal.serveCourse copies (x.flips (flipsSeed tape tape'') n) (x.pads (padsSeed tape' tape'')) n
          width size parties.planner "duplicate" := by
  rw [timetable, Timetable.andThen, Timetable.andThen, CoinToss.timetable,
    Timetable.trio_third h.first_ne_second h.second_ne_third.symm, List.nil_append, CoinToss.timetable,
    Timetable.trio_first, Reveal.timetable, Timetable.trio_second h.second_ne_third.symm]

theorem timetable_helper :
    timetable x parties tape tape' tape'' copies own n width size parties.helper =
      CoinToss.course parties.helper parties.planner tape''.secret.1 tape.secret.1 "duplicate flips" ++
        (CoinToss.course parties.helper parties.owner tape''.secret.2.secret.1 tape'.secret.1
            "duplicate pads" ++
          Reveal.offerCourse (x.flips (flipsSeed tape tape'') n) (x.pads (padsSeed tape' tape''))
            (firstRows own (freshRows x tape'' n width)) (secondRows width (freshRows x tape'' n width)) n
            width size parties.planner "duplicate") := by
  rw [timetable, Timetable.andThen, Timetable.andThen, CoinToss.timetable,
    Timetable.trio_second h.first_ne_third, CoinToss.timetable,
    Timetable.trio_second h.second_ne_third, Reveal.timetable, Timetable.trio_first]

theorem performs_helper (hx : x.Lawful n width size) (hsizes : Sizes n width size)
    {compact : RowBuffer} (hcompact : compact.Holds width own) (hn : own.length = n) :
    ∃ fresh, Performs (helper x parties compact size) tape''
      (timetable x parties tape tape' tape'' copies own n width size parties.helper) fresh
      (x.fresh (helperTape tape'') (n * width)).2 ∧
      fresh.Holds width (freshRows x tape'' n width) := by
  have hfresh := hx.length_fresh (helperTape tape'')
  obtain ⟨fresh, hset, hholds⟩ := hcompact.setRows_all (by rw [hfresh, hn])
  rw [hn] at hholds
  refine ⟨fresh, ?_, hholds⟩
  obtain ⟨hpairs₀, hpairs₁⟩ := holds_pairs hcompact hholds (hn.trans length_freshRows.symm)
  have hoffer := Reveal.performs_offer (σ := Tape) (x.pads (padsSeed tape' tape''))
    hpairs₀ hpairs₁ (length_firstRows hn length_freshRows) (length_secondRows length_freshRows)
    (hx.length_flips (flipsSeed tape tape'')) hsizes.fits parties.planner "duplicate"
    (x.fresh (helperTape tape'') (n * width)).2
  have hflips : tape''.secret.1.xor tape.secret.1 = flipsSeed tape tape'' := Word256.xor_comm ..
  have hpads : tape''.secret.2.secret.1.xor tape'.secret.1 = padsSeed tape' tape'' :=
    Word256.xor_comm ..
  rw [timetable_helper h]
  simp only [helper]
  refine Performs.bind (performs_toss ..) ?_
  refine Performs.bind (performs_toss ..) ?_
  refine Performs.bind_nil (Performs.modifyGet _ _) ?_
  simp only [hcompact.data_size_eq, hn, hflips, hpads]
  refine Performs.bind_nil (Performs.ofChecked hset _) ?_
  refine Performs.bind_nil (Performs.ofChecked
    (makePairs_eq hcompact hholds (hn.trans length_freshRows.symm)) _) ?_
  exact Performs.bind_end (Performs.mapError SwitchError.reveal hoffer) (.pure _ _)

variable (copies own tape tape'') in
theorem performs_owner (hx : x.Lawful n width size) (hsizes : Sizes n width size)
    (hcopies : copies.length = n) {shape : Shape} (hrows : shape.selectRows = n)
    (hstride : shape.stride = width) (hsize : shape.size = size) {s : OwnerState}
    (htape : s.tape = tape') :
    Performs (owner x parties shape) s
      (timetable x parties tape tape' tape'' copies own n width size parties.owner) ()
      { s with tape := tape'.secret.2 } := by
  subst htape hrows hstride hsize
  have hserve := Reveal.performs_serve (σ := OwnerState)
    (x.pads (padsSeed s.tape tape'')) hcopies
    (hx.length_flips (flipsSeed tape tape'')) hsizes.bytes_lt hsizes.fits parties.planner "duplicate"
  rw [timetable_owner h]
  simp only [owner]
  refine Performs.bind (OwnerState.performs_onTape (performs_toss ..)) ?_
  exact Performs.mapError SwitchError.reveal (hserve _)

theorem performs_planner (hx : x.Lawful n width size) (hsizes : Sizes n width size)
    {compact : RowBuffer} {rows : List Bytes} (hcompact : compact.Holds width rows)
    (hn : rows.length = n) (hown : Uniform width own) (hn' : own.length = n) {s : PlannerState}
    (htape : s.tape = tape) (hselect : s.plan.selectRows = n)
    (hcopies : s.plan.repeatFlags n = .ok copies) (hcount : copies.length = n)
    (hfirst : copies.getD 0 false = false) :
    ∃ copied rows', Performs (planner x parties compact size) s
      (timetable x parties tape tape' tape'' copies own n width size parties.planner) copied
      { s with tape := tape.secret.2 } ∧ copied.Holds width rows' ∧
      Resolved (Reveal.pick copies (firstRows own (freshRows x tape'' n width))
        (secondRows width (freshRows x tape'' n width))) 0 copies rows rows' := by
  subst htape
  have hfresh : (freshRows x tape'' n width).length = n := length_freshRows
  have hfirstRows := length_firstRows hn' hfresh
  have hsecondRows : (secondRows width (freshRows x tape'' n width)).length = n :=
    length_secondRows hfresh
  have huniform₀ : Uniform width (firstRows own (freshRows x tape'' n width)) := hown.zipWith_xor _
  have huniform₁ : Uniform width (secondRows width (freshRows x tape'' n width)) :=
    (uniform_freshRows hx).zipWith_xor _
  have hchoose := Reveal.performs_choose (σ := PlannerState)
    (x.pads (padsSeed tape' tape'')) hcount (hx.length_flips (flipsSeed s.tape tape''))
    (hx.pads _) hfirstRows hsecondRows huniform₀ huniform₁ hsizes.width_pos hsizes.bytes_lt hsizes.fits
    parties.helper parties.owner "duplicate"
  have hpick := Reveal.length_pick hcount hfirstRows hsecondRows
  have hlearned := RowBuffer.holds_ofRows (Reveal.uniform_pick huniform₀ huniform₁)
    (hsizes.width_pos.imp_left fun hzero => List.eq_nil_of_length_eq_zero (hpick.trans hzero))
    (hpick.symm ▸ hsizes.bytes_lt)
  obtain ⟨copied, rows', hresolve, hholds, hresolved⟩ := resolve_spec (i := 0) hlearned
    hcompact (hpick.trans hn.symm) (by rw [Nat.zero_add, hcount, hn]) fun _ => hfirst
  refine ⟨copied, rows', ?_, hholds, hresolved⟩
  rw [timetable_planner h]
  simp only [planner, hcompact.stride_eq]
  refine Performs.bind (PlannerState.performs_onTape (performs_toss ..)) ?_
  refine Performs.bind_nil (Performs.get _) ?_
  simp only [hselect]
  refine Performs.bind_nil (Performs.ofChecked hcopies _) ?_
  refine Performs.bind_end (Performs.mapError SwitchError.reveal (hchoose _)) ?_
  exact Performs.ofChecked hresolve _

end Courses

end Switching.Duplicate

end ObliviousRouting
